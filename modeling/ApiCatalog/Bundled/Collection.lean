import ApiCatalog.Bundled.Dom
import ApiCatalog.Bundled.WebAudio
import ApiCatalog.Bundled.ServiceWorker
import ApiCatalog.Loading

/-!
# The catalog of the bundled texts

The bundled declarations of browser interfaces and the catalog that they make up.
-/

namespace ApiCatalog.Bundled

/-- A bundled text. -/
inductive Part
  | dom
  | webAudio
  | serviceWorker
  deriving DecidableEq, Repr

namespace Part

/-- All bundled texts in the order in which they are loaded. -/
def all : List Part := [dom, webAudio, serviceWorker]

/-- The name of a bundled text as a source. -/
def sourceName : Part → String
  | dom => "dom.decl"
  | webAudio => "web_audio.decl"
  | serviceWorker => "service_worker.decl"

/-- The declarations of a bundled text. -/
def text : Part → String
  | dom => domText
  | webAudio => webAudioText
  | serviceWorker => serviceWorkerText

/-- A bundled text as a source. -/
def source (api : Part) : Source := ⟨api.sourceName, api.text⟩

/-- The bundled text with the given name. -/
def ofSourceName? (name : String) : Option Part := all.find? (·.sourceName == name)

end Part

/-- All bundled texts as sources. -/
def sources : List Source := Part.all.map Part.source

/-- Loads the bundled texts. -/
def loadAll (settings : LoadSettings) : Loaded := load settings sources

/-- The catalog of the bundled texts. -/
def catalog : Catalog := (loadAll {}).catalog

end ApiCatalog.Bundled
