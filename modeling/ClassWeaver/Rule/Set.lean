import ClassWeaver.Rule.Entry
import ClassWeaver.Rule.Name

namespace ClassWeaver

def Rule.ofEntry (e : RuleEntry) : Except RuleFault Rule := do
  let id := trimmed e.id
  if id.isEmpty then .error .emptyId
  else
    let predicate ← e.classes.normalize id
    let selector ← (e.methods.getD Selector.default).normalize id
    let action ← e.action.normalize id
    return ⟨id, predicate, selector, action⟩

structure Ruleset where
  rules : List Rule
  deriving DecidableEq, Repr

namespace Ruleset

def collect : List RuleEntry → List Rule → Except RuleFault (List Rule)
  | [], done => .ok done.reverse
  | e :: rest, done =>
    match Rule.ofEntry e with
    | .error fault => .error fault
    | .ok r =>
      if done.any (·.id == r.id) then .error (.duplicateId r.id) else collect rest (r :: done)

def ofEntries (entries : List RuleEntry) : Except RuleFault Ruleset :=
  (collect entries []).map Ruleset.mk

def isEmpty (s : Ruleset) : Bool := s.rules.isEmpty

def size (s : Ruleset) : Nat := s.rules.length

def find? (s : Ruleset) (id : String) : Option Rule := s.rules.find? (·.id == id)

def matching (s : Ruleset) (name : String) (annotations : List String) : List String :=
  (s.rules.filter (·.predicate.holds name annotations)).map (·.id)

def toJson (s : Ruleset) : Json := .record [("rules", .list (s.rules.map Rule.toJson))]

end Ruleset

end ClassWeaver
