import ClassWeaver.Rule.Basic
import ClassWeaver.Text.Blank

namespace ClassWeaver

inductive RuleFault where
  | emptyId
  | invalidName (rule name : String)
  | invalidHookMethod (rule method : String)
  | duplicateId (id : String)
  deriving DecidableEq, Repr

def RuleFault.message : RuleFault → String
  | .emptyId => "rule id must not be empty"
  | .invalidName rule name => s!"rule '{rule}': invalid class or package name '{name}'"
  | .invalidHookMethod rule method => s!"rule '{rule}': invalid hook method name '{method}'"
  | .duplicateId id => s!"duplicate rule id '{id}'"

namespace InternalName

def dropStars : List Char → List Char
  | '*' :: '.' :: rest => dropStars rest
  | cs => cs

/-- Without blanks, then without `.*` at the end, then without slashes on either side. -/
def bare (cs : List Char) : List Char :=
  stripWhile (· = '/') (dropStars (trimBlank cs).reverse).reverse

def isForbidden (c : Char) : Bool := c = '*' || c = ';' || c = '[' || c = ' '

def withSlashes (cs : List Char) : List Char := cs.map fun c => if c = '.' then '/' else c

def normalize (rule name : String) : Except RuleFault String :=
  let cs := bare name.toList
  if cs.isEmpty || cs.any isForbidden then .error (.invalidName rule (String.ofList cs))
  else .ok (String.ofList (withSlashes cs))

def isDescriptor (cs : List Char) : Bool :=
  cs.head? = some 'L' && cs.getLast? = some ';' && 2 < cs.length

def normalizeType (rule name : String) : Except RuleFault String :=
  let cs := trimBlank name.toList
  if isDescriptor cs then .ok (String.ofList cs)
  else
    (normalize rule (String.ofList (cs.dropWhile (· = '@')))).map fun name =>
      String.ofList ('L' :: (name.toList ++ [';']))

end InternalName

namespace Hook

def isForbidden (c : Char) : Bool :=
  c = '.' || c = ';' || c = '[' || c = '/' || c = '<' || c = '>' || c = ' '

def isMethodName (cs : List Char) : Bool :=
  !cs.isEmpty && !cs.any isForbidden && !(cs.head?.map Char.isDigit).getD false

def normalize (rule : String) (h : Hook) : Except RuleFault Hook := do
  let owner ← InternalName.normalize rule h.owner
  if isMethodName h.method.toList then return ⟨owner, h.method⟩
  else .error (.invalidHookMethod rule h.method)

end Hook

def ClassPredicate.normalize (rule : String) : ClassPredicate → Except RuleFault ClassPredicate
  | named name => (InternalName.normalize rule name).map named
  | inPackage name =>
    (InternalName.normalize rule name).map fun name => inPackage (name ++ "/")
  | annotated type => (InternalName.normalizeType rule type).map annotated

def Selector.normalize (rule : String) (s : Selector) : Except RuleFault Selector :=
  match s.annotated with
  | none => .ok s
  | some type =>
    (InternalName.normalizeType rule type).map fun type => { s with annotated := some type }

def RuleAction.normalize (rule : String) : RuleAction → Except RuleFault RuleAction
  | enter hook => (hook.normalize rule).map enter
  | exit hook => (hook.normalize rule).map exit
  | replace => .ok replace

end ClassWeaver
