import ClassWeaver.ClassFile.Basic
import ClassWeaver.Text.Json.Printer

namespace ClassWeaver

structure Hook where
  owner : String
  method : String
  deriving DecidableEq, Repr

def Hook.descriptor : String := "(Ljava/lang/String;)V"

inductive RuleAction where
  | enter (hook : Hook)
  | exit (hook : Hook)
  | replace
  deriving DecidableEq, Repr

/-- The classes a rule is for: one by name, all below a package, or those with an annotation. -/
inductive ClassPredicate where
  | named (name : String)
  | inPackage (start : String)
  | annotated (type : String)
  deriving DecidableEq, Repr

structure Selector where
  name : Option String
  descriptor : Option String
  annotated : Option String
  includeConstructors : Bool
  deriving DecidableEq, Repr

structure Rule where
  id : String
  predicate : ClassPredicate
  selector : Selector
  action : RuleAction
  deriving DecidableEq, Repr

def Selector.default : Selector := ⟨none, none, none, false⟩

def Option.admits {α : Type} (test : α → Bool) : Option α → Bool
  | none => true
  | some a => test a

namespace Selector

def accepts (s : Selector) (m : Method) : Bool :=
  m.code.isSome && !m.isAbstract && !m.isNative &&
    (s.includeConstructors || !m.isConstructor) &&
    Option.admits (· == m.name) s.name &&
    Option.admits (· == m.descriptor) s.descriptor &&
    Option.admits (m.annotations.contains ·) s.annotated

end Selector

namespace ClassPredicate

def holds (p : ClassPredicate) (name : String) (annotations : List String) : Bool :=
  match p with
  | named n => name == n
  | inPackage start => start.toList.isPrefixOf name.toList
  | annotated type => annotations.contains type

end ClassPredicate

namespace Rule

def isReplacement (r : Rule) : Bool := r.action == .replace

/-- The methods the rule changes. A constructor of instances keeps its body, which calls the one of
the super class. -/
def targets (r : Rule) (m : Method) : Bool :=
  r.selector.accepts m && !(r.isReplacement && m.name == "<init>")

end Rule

def Hook.toJson (h : Hook) : Json :=
  .record [("owner", .string h.owner), ("method", .string h.method)]

def RuleAction.toJson : RuleAction → Json
  | .enter hook => .record [("Enter", hook.toJson)]
  | .exit hook => .record [("Exit", hook.toJson)]
  | .replace => .string "Replace"

def ClassPredicate.toJson : ClassPredicate → Json
  | .named name => .record [("Class", .string name)]
  | .inPackage start => .record [("Package", .string start)]
  | .annotated type => .record [("Annotated", .string type)]

def Selector.toJson (s : Selector) : Json :=
  .record
    [("name", Json.ofOption .string s.name),
     ("descriptor", Json.ofOption .string s.descriptor),
     ("annotation", Json.ofOption .string s.annotated),
     ("include_constructors", .bool s.includeConstructors)]

def Rule.toJson (r : Rule) : Json :=
  .record
    [("id", .string r.id), ("predicate", r.predicate.toJson), ("selector", r.selector.toJson),
     ("action", r.action.toJson)]

end ClassWeaver
