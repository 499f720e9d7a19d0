/-!
# The Service Worker API

The declarations of service workers, of push messages and of caches.
-/

namespace ApiCatalog.Bundled

/-- The text of the declarations. -/
def serviceWorkerText : String :=
  "; Service Worker, Push and Cache APIs
; http://www.w3.org/TR/service-workers/
; https://w3c.github.io/push-api/

(class: ServiceWorker :extends Worker
  :see [\"http://www.w3.org/TR/service-workers/#service-worker-interface\"]
  :members [(property scriptURL string)
            (property state ServiceWorkerState)
            (property onstatechange (? (function [!Event])))])

(enum: ServiceWorkerState :of string
  :values \x7b:INSTALLING \"installing\"
           :INSTALLED \"installed\"
           :ACTIVATING \"activating\"
           :ACTIVATED \"activated\"
           :REDUNDANT \"redundant\"\x7d)

; Push

(class: PushSubscription
  :see [\"https://w3c.github.io/push-api/\"]
  :members [(property endpoint string)
            (property subscriptionId string
              :deprecated \"Chrome intends to remove this field in Chrome 43 or 44.\"
              :see [\"https://www.chromestatus.com/feature/5283829761703936\"])
            (method unsubscribe [] (! (promise boolean)))])

; Not shipped in Chrome beta yet.
#_(enum: PushPermissionStatus :of string
    :values \x7b:GRANTED \"granted\" :DENIED \"denied\" :DEFAULT \"default\"\x7d)

(class: PushManager
  :see [\"https://w3c.github.io/push-api/#idl-def-PushManager\"]
  :members [(method subscribe [(opt_options PushSubscriptionOptions :optional)]
                              (! (promise PushSubscription)))
            (method getSubscription [] (! (promise PushSubscription)))
            #_(method hasPermission [] (! (promise PushPermissionStatus)))])

(typedef: PushSubscriptionOptions \x7b:userVisibleOnly (union boolean undefined)\x7d
  :see [\"https://w3c.github.io/push-api/#idl-def-PushSubscriptionOptions\"])

(class: PushMessageData
  :see [\"http://www.w3.org/TR/push-api/#idl-def-PushMessageData\"]
  :members [(method arrayBuffer [] (! (buffer bytes)))
            (method blob [] !Blob)
            (method json [] *)
            (method text [] string)])

(typedef: PushMessageDataInit (union !BufferSource string)
  :see [\"https://w3c.github.io/push-api/#idl-def-PushMessageDataInit\"])

(class: PushEvent :extends ExtendableEvent
  :params [(type string) (opt_eventInitDict !PushEventInit :optional)]
  :see [\"http://www.w3.org/TR/push-api/#idl-def-PushEvent\"]
  :members [(property data ?PushMessageData)])

(record: PushEventInit :extends ExtendableEventInit
  :see [\"https://w3c.github.io/push-api/#idl-def-PushEvent\"]
  :members [(property data (union undefined !PushMessageDataInit))])

; Registration

(interface: ServiceWorkerRegistration :extends EventTarget
  :see [\"http://www.w3.org/TR/service-workers/#service-worker-registration-interface\"]
  :members [(property installing ServiceWorker)
            (property waiting ServiceWorker)
            (property active ServiceWorker)
            (property scope string)
            (method unregister [] (! (promise boolean)))
            (property onupdatefound (? (function [!Event])))
            (method update [] (! (promise void)))
            (property pushManager !PushManager :see [\"https://w3c.github.io/push-api/\"])
            (method showNotification [(title string) (opt_options NotificationOptions :optional)]
                                     (! (promise void))
              :see [\"https://notifications.spec.whatwg.org/#service-worker-api\"])
            (method getNotifications [(opt_filter !GetNotificationOptions :optional)]
                                     (! (promise (? (array ?Notification))))
              :see [\"https://notifications.spec.whatwg.org/#service-worker-api\"])])

(interface: ServiceWorkerContainer :extends EventTarget
  :see [\"http://www.w3.org/TR/service-workers/#service-worker-container-interface\"]
  :members [(property controller ?ServiceWorker)
            (property ready (! (promise !ServiceWorkerRegistration)))
            (method register [(scriptURL string) (opt_options RegistrationOptions :optional)]
                             (! (promise !ServiceWorkerRegistration)))
            (method getRegistration [(opt_documentURL string :optional)]
                                    (! (promise (union !ServiceWorkerRegistration undefined))))
            (method getRegistrations [] (! (promise (array !ServiceWorkerRegistration))))
            (property oncontrollerchange (? (function [!Event])))
            (property onerror (? (function [!ErrorEvent])))])

(typedef: RegistrationOptions \x7b:scope string\x7d)

(augment: Navigator
  :members [(property serviceWorker !ServiceWorkerContainer)])

; Worker side

(interface: ServiceWorkerGlobalScope :extends WorkerGlobalScope
  :see [\"http://www.w3.org/TR/service-workers/#service-worker-global-scope-interface\"]
  :members [(property scriptCache !Cache)
            (property caches !CacheStorage)
            (property clients !ServiceWorkerClients)
            (property scope string)
            (property registration !ServiceWorkerRegistration)
            (method skipWaiting [] (! (promise void)))
            (property console !Console)
            (property oninstall (? (function [!ExtendableEvent])))
            (property onactivate (? (function [!ExtendableEvent])))
            (property onfetch (? (function [!FetchEvent])))
            (property onbeforeevicted (? (function [!Event])))
            (property onevicted (? (function [!Event])))
            (property onmessage (? (function [!ExtendableMessageEvent])))
            (property indexedDB IDBFactory)
            (property onpush (? (function [!PushEvent]))
              :see [\"https://w3c.github.io/push-api/#widl-ServiceWorkerGlobalScope-onpush\"])
            (property onpushsubscriptionchange (? (function [!ExtendableEvent]))
              :see [\"https://w3c.github.io/push-api/#widl-ServiceWorkerGlobalScope-onpushsubscriptionchange\"])])

(class: ServiceWorkerClient
  :see [\"http://www.w3.org/TR/service-workers/#service-worker-client-interface\"]
  :members [(property ready (! (promise void)))
            (property hidden boolean)
            (property focused boolean)
            (property visibilityState VisibilityState)
            (property url string)
            (property frameType string)
            (method postMessage [(message *)
                                 (opt_transfer (union (! (array !Transferable)) undefined) :optional)]
                                undefined)
            (method focus [] (! (promise ?)))])

(interface: ServiceWorkerClients
  :see [\"http://www.w3.org/TR/service-workers/#service-worker-clients-interface\"]
  :members [(method getAll [(opt_options ServiceWorkerClientQueryOptions :optional)]
                           (! (promise (! (array !ServiceWorkerClient))))
              :deprecated \x7b:replacement ServiceWorkerClients/matchAll
                           :note \"Deprecated in Chrome M43+.\"\x7d
              :see [\"https://github.com/slightlyoff/ServiceWorker/issues/610\"])
            (method matchAll [(opt_options ServiceWorkerClientQueryOptions :optional)]
                             (! (promise (! (array !ServiceWorkerClient)))))
            (method claim [] (! (promise void)))
            (method openWindow [(url string)] (! (promise !ServiceWorkerClient)))])

(typedef: ServiceWorkerClientQueryOptions \x7b:includeUncontrolled (union boolean undefined)\x7d)

; Caches

(interface: Cache
  :see [\"http://www.w3.org/TR/service-workers/#cache-interface\"]
  :members [(method match [(request !RequestInfo) (opt_options CacheQueryOptions :optional)]
                          (! (promise (union !Response undefined))))
            (method matchAll [(opt_request RequestInfo :optional)
                              (opt_options CacheQueryOptions :optional)]
                             (! (promise (! (array !Response)))))
            (method add [(request !RequestInfo)] (! (promise void)))
            (method addAll [(requests (! (array !RequestInfo)))] (! (promise void)))
            (method put [(request !RequestInfo) (response !Response)] (! (promise void)))
            (method delete [(request !RequestInfo) (opt_options CacheQueryOptions :optional)]
                           (! (promise boolean)))
            (method keys [(opt_request RequestInfo :optional)
                          (opt_options CacheQueryOptions :optional)]
                         (! (promise (! (array !Request)))))])

(typedef: CacheQueryOptions \x7b:ignoreSearch (union boolean undefined)
                             :ignoreMethod (union boolean undefined)
                             :ignoreVary (union boolean undefined)
                             :prefixMatch (union boolean undefined)
                             :cacheName (union string undefined)\x7d)

(interface: CacheStorage
  :see [\"http://www.w3.org/TR/service-workers/#cache-storage-interface\"]
  :members [(method match [(request !RequestInfo) (opt_options CacheQueryOptions :optional)]
                          (! (promise (union !Response undefined))))
            (method has [(cacheName string)] (! (promise boolean)))
            (method open [(cacheName string)] (! (promise !Cache)))
            (method delete [(cacheName string)] (! (promise boolean)))
            (method keys [] (! (promise (! (array string)))))])

(augment: Window
  :members [(property caches !CacheStorage
              :see [\"https://www.w3.org/TR/service-workers/#cache-objects\"])])

; Events

(class: ExtendableEvent :extends Event
  :params [(type string) (opt_eventInitDict ExtendableEventInit :optional)]
  :see [\"http://www.w3.org/TR/service-workers/#extendable-event-interface\"]
  :members [(method waitUntil [(f IThenable)] undefined)])

(record: ExtendableEventInit :extends EventInit
  :see [\"https://www.w3.org/TR/service-workers/#extendable-event-init-dictionary\"])

(class: ExtendableMessageEvent :extends ExtendableEvent :template [T]
  :params [(type string) (opt_init !ExtendableMessageEventInit :optional)]
  :see [\"https://www.w3.org/TR/service-workers/#extendablemessage-event-interface\"]
  :members [(property data T)
            (property origin string)
            (property lastEventId string)
            (property source Window)
            (property ports (! (array !MessagePort)))])

(record: ExtendableMessageEventInit :extends ExtendableEventInit
  :see [\"https://www.w3.org/TR/service-workers/#extendablemessage-event-init-dictionary\"]
  :members [(property data (union undefined *))
            (property origin (union undefined string))
            (property lastEventId (union undefined string))
            (property source (union undefined !ServiceWorkerClient !ServiceWorker !MessagePort))
            (property ports (union undefined (! (array !MessagePort))))])

(class: FetchEvent :extends Event
  :params [(type string) (opt_eventInitDict FetchEventInit :optional)]
  :see [\"http://www.w3.org/TR/service-workers/#fetch-event-interface\"]
  :members [(property request !Request)
            (property client !ServiceWorkerClient)
            (property isReload !boolean)
            (method respondWith [(r (union Response (promise Response)))] undefined)
            (method forwardTo [(url string)] (! (promise !Response)))
            (method default [] (! (promise !Response)))])

(record: FetchEventInit :extends ExtendableEventInit
  :see [\"https://www.w3.org/TR/service-workers/#fetch-event-init-dictionary\"]
  :members [(property request (union undefined !Request))
            (property client (union undefined !ServiceWorkerClient))
            (property isReload (union undefined boolean))])
"

end ApiCatalog.Bundled
