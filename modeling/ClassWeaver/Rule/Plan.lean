import ClassWeaver.Rule.Set

/-!
Plans: what rules ask for of each method of a class. Planning changes no code; it only finds out
whether two rules get into each other's way.
-/

namespace ClassWeaver

structure Edit where
  enter : List Hook
  exit : List Hook
  replacedBy : Option String
  rules : List String
  deriving DecidableEq, Repr

namespace Edit

def none : Edit := ⟨[], [], .none, []⟩

def isNone (e : Edit) : Bool := e.rules.isEmpty

/-- The earlier rule that a further one cannot go together with: a replaced body stands alone. -/
def clash? (e : Edit) (r : Rule) : Option String :=
  match e.replacedBy with
  | some id => some id
  | .none => if r.isReplacement then e.rules.head? else .none

def add (e : Edit) (r : Rule) : Edit :=
  let e := { e with rules := e.rules ++ [r.id] }
  match r.action with
  | .enter hook => { e with enter := e.enter ++ [hook] }
  | .exit hook => { e with exit := e.exit ++ [hook] }
  | .replace => { e with replacedBy := some r.id }

end Edit

structure RuleConflict where
  className : String
  method : String
  first : String
  second : String
  deriving DecidableEq, Repr

def RuleConflict.message (c : RuleConflict) : String :=
  s!"rules '{c.first}' and '{c.second}' conflict on {c.className}.{c.method}"

structure Plan where
  file : ClassFile
  edits : List Edit
  newlyApplied : List String
  deriving DecidableEq, Repr

namespace Plan

def of (file : ClassFile) : Plan := ⟨file, file.methods.map fun _ => Edit.none, []⟩

def hasEdits (p : Plan) : Bool := p.edits.any fun e => !e.isNone

def knows (p : Plan) (id : String) : Bool :=
  p.file.appliedRules.contains id || p.newlyApplied.contains id

def conflict? (p : Plan) (r : Rule) : Option RuleConflict :=
  (p.file.methods.zip p.edits).findSome? fun (m, e) =>
    if r.targets m then
      (e.clash? r).map fun first => ⟨p.file.dottedName, m.signature, first, r.id⟩
    else none

def add (p : Plan) (r : Rule) : Plan :=
  { p with
    edits := List.zipWith (fun m e => if r.targets m then e.add r else e) p.file.methods p.edits
    newlyApplied :=
      if p.file.methods.any r.targets then p.newlyApplied ++ [r.id] else p.newlyApplied }

/-- Applies the rule of that id. A rule that the class knows already changes nothing. -/
def apply (rules : Ruleset) (id : String) (p : Plan) : Except RuleConflict Plan :=
  match rules.find? id with
  | none => .ok p
  | some r =>
    if p.knows id then .ok p
    else
      match p.conflict? r with
      | some conflict => .error conflict
      | none => .ok (p.add r)

def applyAll (rules : Ruleset) : List String → Plan → Except RuleConflict Plan
  | [], p => .ok p
  | id :: rest, p =>
    match p.apply rules id with
    | .error conflict => .error conflict
    | .ok p => applyAll rules rest p

end Plan

end ClassWeaver
