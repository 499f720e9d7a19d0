/-!
# The platform base types

The declarations of events, workers, requests and windows, which the other bundled texts
build on.
-/

namespace ApiCatalog.Bundled

/-- The text of the declarations. -/
def domText : String :=
  "; Platform types the audio and service worker catalogs build on.
; Only the members those catalogs rely on are declared here.

(class: Object)

(interface: IThenable :template [T]
  :members [(method then [(onFulfilled (function [T] *) :optional)
                          (onRejected (function [*] *) :optional)]
                         IThenable)])

(interface: Transferable)

; Events

(interface: EventListener
  :members [(method handleEvent [(evt !Event)])])

(interface: EventTarget
  :members [(method addEventListener [(type string)
                                      (listener (union EventListener (function [!Event] (union boolean undefined))))
                                      (useCapture boolean :optional)])
            (method removeEventListener [(type string)
                                         (listener (union EventListener (function [!Event] (union boolean undefined))))
                                         (useCapture boolean :optional)])
            (method dispatchEvent [(evt !Event)] boolean)])

(record: EventInit
  :members [(property bubbles (union boolean undefined))
            (property cancelable (union boolean undefined))])

(class: Event
  :params [(type string) (eventInitDict EventInit :optional)]
  :members [(property type string :readonly)
            (property target EventTarget :readonly)
            (property currentTarget EventTarget :readonly)
            (property bubbles boolean :readonly)
            (property cancelable boolean :readonly)
            (property timeStamp number :readonly)
            (method preventDefault [])
            (method stopPropagation [])])

(class: ErrorEvent :extends Event
  :members [(property message string :readonly)
            (property filename string :readonly)
            (property lineno number :readonly)])

(class: MessagePort :implements [EventTarget Transferable]
  :members [(method postMessage [(message *) (transfer (array Transferable) :optional)])
            (method start [])
            (method close [])
            (property onmessage (? (function [MessageEvent])))])

(class: MessageEvent :extends Event :template [T]
  :members [(property data T :readonly)
            (property origin string :readonly)
            (property ports (array MessagePort) :readonly)])

; Workers

(class: Worker :implements [EventTarget]
  :params [(scriptURL string)]
  :members [(method postMessage [(message *) (transfer (array Transferable) :optional)])
            (method terminate [])
            (property onmessage (? (function [MessageEvent])))
            (property onerror (? (function [ErrorEvent])))])

(interface: WorkerLocation
  :members [(property href string :readonly)
            (property origin string :readonly)])

(interface: WorkerGlobalScope :extends EventTarget
  :members [(property self WorkerGlobalScope :readonly)
            (property location WorkerLocation :readonly)
            (property onerror (? (function [ErrorEvent])))
            (method importScripts [(urls string)])
            (method close [])])

(class: Console
  :members [(method log [(message *)])
            (method warn [(message *)])
            (method error [(message *)])])

(interface: IDBFactory
  :members [(method deleteDatabase [(name string)] *)])

; Fetch

(class: Blob
  :params [(blobParts (array *) :optional) (options Object :optional)]
  :members [(property size number :readonly)
            (property type string :readonly)
            (method slice [(start number :optional) (end number :optional)] !Blob)])

(typedef: BufferSource (union (buffer bytes) (buffer uint8) (buffer float32)))

(class: Headers
  :members [(method get [(name string)] ?string)
            (method has [(name string)] boolean)])

(class: Request
  :params [(input RequestInfo) (init Object :optional)]
  :members [(property method string :readonly)
            (property url string :readonly)
            (property headers !Headers :readonly)
            (method clone [] !Request)])

(typedef: RequestInfo (union !Request string))

(class: Response
  :params [(body (union BufferSource Blob string) :optional) (init Object :optional)]
  :members [(property status number :readonly)
            (property ok boolean :readonly)
            (property headers !Headers :readonly)
            (method clone [] !Response)
            (method arrayBuffer [] (! (promise (buffer bytes))))
            (method text [] (! (promise string)))])

; Notifications

(record: NotificationOptions
  :members [(property body (union string undefined))
            (property tag (union string undefined))
            (property icon (union string undefined))])

(record: GetNotificationOptions
  :members [(property tag (union string undefined))])

(class: Notification :implements [EventTarget]
  :params [(title string) (options NotificationOptions :optional)]
  :members [(property title string :readonly)
            (property body string :readonly)
            (property tag string :readonly)
            (method close [])])

; Documents and media

(enum: VisibilityState :of string
  :values \x7b:HIDDEN \"hidden\" :VISIBLE \"visible\" :PRERENDER \"prerender\" :UNLOADED \"unloaded\"\x7d)

(class: MediaStream :implements [EventTarget]
  :members [(property id string :readonly)
            (property active boolean :readonly)])

(class: HTMLMediaElement :implements [EventTarget]
  :members [(property src string)
            (property currentTime number)
            (property duration number :readonly)
            (property paused boolean :readonly)
            (property volume number)
            (method play [])
            (method pause [])])

(class: HTMLAudioElement :extends HTMLMediaElement)

(class: Navigator
  :members [(property userAgent string :readonly)
            (property onLine boolean :readonly)])

(class: Window :implements [EventTarget]
  :members [(property navigator !Navigator :readonly)
            (property console !Console :readonly)])
"

end ApiCatalog.Bundled
