import AttrChain.Json.Fields
import AttrChain.Scene.Basic
import AttrChain.Value.Json

/-!
Scenes read from documents. A document of any other shape is no scene.
-/

namespace AttrChain

open Json (Dialect)

def Settings.ofJson? (d : Dialect) (json : Json) : Option Settings := do
  let f ← json.fields? d ["debug", "strict", "done_event"]
  let debug ← f.orElse "debug" Settings.standard.debug Json.asBool?
  let strict ← f.orElse "strict" Settings.standard.strict Json.asBool?
  let doneEvent ← f.orElse "done_event" Settings.standard.doneEvent Json.asText?
  return { debug, strict, doneEvent }

namespace Scene

def Format.ofJson? (d : Dialect) (json : Json) : Option Format := do
  let f ← json.fields? d ["format"]
  f.orElse "format" .text (Json.asChoice? d [("text", .text), ("json", .json)])

def NodeEntry.ofJson? (d : Dialect) (json : Json) : Option NodeEntry := do
  let f ← json.fields? d ["id", "tag", "parent", "class", "attrs", "text", "on", "by", "to"]
  let id ← f.required "id" Json.asText?
  let tag ← f.orElse "tag" "div" Json.asText?
  let parent ← f.optional "parent" Json.asText?
  let classText ← f.orElse "class" "" Json.asText?
  let attrs ← f.orElse "attrs" [] Json.asTexts?
  let text ← f.orElse "text" "" Json.asText?
  let onText ← f.orElse "on" "" Json.asText?
  let byText ← f.orElse "by" "" Json.asText?
  let toText ← f.orElse "to" "" Json.asText?
  return { id, tag, parent, classText, attrs, text, onText, byText, toText }

def FireEntry.ofJson? (d : Dialect) (json : Json) : Option FireEntry := do
  let f ← json.fields? d ["node", "event", "detail", "bubbles"]
  let node ← f.required "node" Json.asText?
  let event ← f.required "event" Json.asText?
  let detail ← f.optional "detail" fun json => some (Value.ofJson json)
  let bubbles ← f.orElse "bubbles" true Json.asBool?
  return { node, event, detail, bubbles }

def RebindEntry.ofJson? (d : Dialect) (json : Json) : Option RebindEntry := do
  let f ← json.fields? d ["from", "to", "events", "once", "init", "selector"]
  let source ← f.required "from" Json.asText?
  let target ← f.required "to" Json.asText?
  let events ← f.orElse "events" [] (Json.asList? Json.asText?)
  let once ← f.orElse "once" false Json.asBool?
  let initial ← f.optional "init" fun json => some (Value.ofJson json)
  let selector ← f.optional "selector" Json.asText?
  return { source, target, events, once, initial, selector }

def ofJson? (d : Dialect) (json : Json) : Option Scene := do
  let f ← json.fields? d ["builder", "output", "node", "fire", "rebind"]
  let settings ← f.orElse "builder" .standard (Settings.ofJson? d)
  let format ← f.orElse "output" .text (Format.ofJson? d)
  let nodes ← f.orElse "node" [] (Json.asList? (NodeEntry.ofJson? d))
  let fires ← f.orElse "fire" [] (Json.asList? (FireEntry.ofJson? d))
  let rebinds ← f.orElse "rebind" [] (Json.asList? (RebindEntry.ofJson? d))
  return { settings, format, nodes, fires, rebinds }

end Scene

end AttrChain
