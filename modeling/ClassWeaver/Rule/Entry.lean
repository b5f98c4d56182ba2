import ClassWeaver.Rule.Basic
import ClassWeaver.Text.Json.Decoder

namespace ClassWeaver

structure RuleEntry where
  id : String
  classes : ClassPredicate
  methods : Option Selector
  action : RuleAction
  deriving DecidableEq, Repr

namespace RuleEntry

def predicateOf? (name text : String) : Option ClassPredicate :=
  match name with
  | "className" => some (.named text)
  | "packagePrefix" => some (.inPackage text)
  | "annotation" => some (.annotated text)
  | _ => none

def decodePredicate : Decode ClassPredicate
  | .record [] .closed => .error .malformed
  | .record [] (.badName found _) => found.misshapen
  | .record [] (.cut fault _) => .error fault
  | .record ((name, d) :: rest) end_ =>
    match predicateOf? name "" with
    | none => .error .shape
    | some _ => do
      let text ← Decode.string d
      match rest, predicateOf? name text with
      | [], some predicate => Decode.stopAtOnce predicate end_
      | _, _ => .error .malformed
  | .string _ => .error .shape
  | .broken fault => .error fault
  | _ => .error .malformed

inductive ActionKind where
  | enter | exit | replace
  deriving DecidableEq, Repr

def decodeKind : Decode ActionKind
  | .string "enterHook" => .ok .enter
  | .string "exitHook" => .ok .exit
  | .string "replaceBody" => .ok .replace
  | d => d.misshapen

def actionOf (kind : ActionKind) (hook : Except JsonFault Hook) : Except JsonFault RuleAction :=
  match kind with
  | .enter => hook.map .enter
  | .exit => hook.map .exit
  | .replace => .ok .replace

def splitKind : List (String × Draft) → Option ActionKind → List (String × Draft) →
    Except JsonFault (Option ActionKind × List (String × Draft))
  | [], kind, others => .ok (kind, others.reverse)
  | (name, d) :: rest, kind, others =>
    if name = "kind" then
      match kind with
      | some _ => .error .shape
      | none =>
        match decodeKind d with
        | .error fault => .error fault
        | .ok kind => splitKind rest (some kind) others
    else
      match d.fault? with
      | some fault => .error fault
      | none => splitKind rest kind ((name, d) :: others)

def single (name : String) (ms : List (String × Draft)) : Except JsonFault String :=
  match ms.filter (·.1 == name) with
  | [(_, .string text)] => .ok text
  | _ => .error .shape

def hookOfMembers (ms : List (String × Draft)) : Except JsonFault Hook := do
  return ⟨← single "owner" ms, ← single "method" ms⟩

def hookOfItems : List Draft → Except JsonFault Hook
  | [.string owner, .string method] => .ok ⟨owner, method⟩
  | _ => .error .shape

/-- A record with a kind, or a list that begins with one. Members that the kind does not know are
left aside. -/
def decodeAction : Decode RuleAction
  | .record ms end_ => do
    let (kind, others) ← splitKind ms none []
    match ← Decode.stop kind end_ with
    | none => .error .shape
    | some kind => actionOf kind (hookOfMembers others)
  | .list [] end_ => Decode.stop () end_ >>= fun _ => .error .shape
  | .list (d :: rest) end_ => do
    let kind ← decodeKind d
    match Draft.faultIn? rest with
    | some fault => .error fault
    | none =>
      Decode.stop () end_
      match kind, rest with
      | .replace, _ :: _ => .error .shape
      | kind, rest => actionOf kind (hookOfItems rest)
  | d => d.misshapen

def decodeSelector : Decode Selector := fun d => do
  let text := Decode.optional Decode.string
  let fields ← Decode.fields
    [Decode.part "name" false text, Decode.part "descriptor" false text,
     Decode.part "annotation" false text, Decode.part "includeConstructors" false Decode.bool] d
  return ⟨← fields.getD "name" text none, ← fields.getD "descriptor" text none,
    ← fields.getD "annotation" text none, ← fields.getD "includeConstructors" Decode.bool false⟩

def decode : Decode RuleEntry := fun d => do
  let methods := Decode.optional decodeSelector
  let fields ← Decode.fields
    [Decode.part "id" true Decode.string, Decode.part "classes" true decodePredicate,
     Decode.part "methods" false methods, Decode.part "action" true decodeAction] d
  return ⟨← fields.get "id" Decode.string, ← fields.get "classes" decodePredicate,
    ← fields.getD "methods" methods none, ← fields.get "action" decodeAction⟩

def predicateToJson : ClassPredicate → Json
  | .named name => .record [("className", .string name)]
  | .inPackage start => .record [("packagePrefix", .string start)]
  | .annotated type => .record [("annotation", .string type)]

def selectorToJson (s : Selector) : Json :=
  .record
    [("name", Json.ofOption .string s.name),
     ("descriptor", Json.ofOption .string s.descriptor),
     ("annotation", Json.ofOption .string s.annotated),
     ("includeConstructors", .bool s.includeConstructors)]

def hookToJson (kind : String) (h : Hook) : Json :=
  .record [("kind", .string kind), ("owner", .string h.owner), ("method", .string h.method)]

def actionToJson : RuleAction → Json
  | .enter hook => hookToJson "enterHook" hook
  | .exit hook => hookToJson "exitHook" hook
  | .replace => .record [("kind", .string "replaceBody")]

def toJson (e : RuleEntry) : Json :=
  .record
    [("id", .string e.id), ("classes", predicateToJson e.classes),
     ("methods", Json.ofOption selectorToJson e.methods), ("action", actionToJson e.action)]

end RuleEntry

end ClassWeaver
