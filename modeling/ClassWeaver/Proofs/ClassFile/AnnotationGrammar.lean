import ClassWeaver.Proofs.ClassFile.AnnotationDescent

/-! Annotations are read by their grammar. An annotation has a type and pairs of a name and a value; a
value is a constant, a constant of an enumeration, another annotation or an array of values. What is
read is the encoding of one such tree, of which only the type is kept. -/

namespace ClassWeaver

open Read

namespace Annotations

inductive ConstantKind where
  | byte | char | double | float | int | long | short | boolean | string | classInfo
  deriving DecidableEq, Repr

def ConstantKind.letter : ConstantKind → Char
  | byte => 'B'
  | char => 'C'
  | double => 'D'
  | float => 'F'
  | int => 'I'
  | long => 'J'
  | short => 'S'
  | boolean => 'Z'
  | string => 's'
  | classInfo => 'c'

mutual

inductive Value where
  | constant (kind : ConstantKind) (index : UInt16)
  | enumeration (type name : UInt16)
  | nested (tree : Tree)
  | array (values : List Value)

structure Tree where
  type : UInt16
  pairs : List (UInt16 × Value)

end

mutual

def Value.encode : Value → Bytes
  | .constant kind index => kind.letter.toUInt8 :: be16 index
  | .enumeration type name => 'e'.toUInt8 :: (be16 type ++ be16 name)
  | .nested tree => '@'.toUInt8 :: tree.encode
  | .array values => '['.toUInt8 :: (count16 values.length ++ encodeValues values)

def Tree.encode : Tree → Bytes
  | ⟨type, pairs⟩ => be16 type ++ (count16 pairs.length ++ encodePairs pairs)

def encodeValues : List Value → Bytes
  | [] => []
  | v :: rest => v.encode ++ encodeValues rest

def encodePairs : List (UInt16 × Value) → Bytes
  | [] => []
  | (name, v) :: rest => be16 name ++ (v.encode ++ encodePairs rest)

end

inductive Value.Fits (pool : Pool) : Value → Prop
  | constant (kind : ConstantKind) (index : UInt16) : Fits pool (.constant kind index)
  | enumeration (type name : UInt16) : Fits pool (.enumeration type name)
  | nested {tree : Tree} {text : String} (htype : pool.utf8 tree.type = .ok text)
    (hcount : tree.pairs.length < 65536) (hvalues : ∀ p ∈ tree.pairs, Fits pool p.2) :
    Fits pool (.nested tree)
  | array {values : List Value} (hcount : values.length < 65536)
    (hvalues : ∀ v ∈ values, Fits pool v) : Fits pool (.array values)

structure Tree.Fits (pool : Pool) (tree : Tree) : Prop where
  type : ∃ text, pool.utf8 tree.type = .ok text
  pairs : AllFit (fun p => p.2.Fits pool) tree.pairs

def encodePair (p : UInt16 × Value) : Bytes := be16 p.1 ++ p.2.encode

lemma encodeValues_eq (values : List Value) :
    encodeValues values = values.flatMap Value.encode := by
  induction values with
  | nil => rfl
  | cons v rest ih => rw [encodeValues, ih, List.flatMap_cons]

lemma encodePairs_eq (pairs : List (UInt16 × Value)) :
    encodePairs pairs = pairs.flatMap encodePair := by
  induction pairs with
  | nil => rfl
  | cons p rest ih => rw [encodePairs, ih, List.flatMap_cons, encodePair, List.append_assoc]

lemma Tree.encode_eq (tree : Tree) : tree.encode =
    be16 tree.type ++ (count16 tree.pairs.length ++ tree.pairs.flatMap encodePair) := by
  rw [← encodePairs_eq]
  cases tree
  rw [encode]

lemma Value.encode_array (values : List Value) : (array values).encode =
    '['.toUInt8 :: (count16 values.length ++ values.flatMap encode) := by
  rw [encode, encodeValues_eq]

section Tags

variable {tag : UInt8}

lemma valueShape?_letter (kind : ConstantKind) :
    valueShape? kind.letter.toUInt8 = some .constant := by
  cases kind <;> rfl

lemma toUInt8_letter_injective :
    Function.Injective fun kind : ConstantKind => kind.letter.toUInt8 := by
  intro k k' h
  cases k <;> cases k' <;> first | rfl | exact absurd h (by decide)

lemma eq_toUInt8 {c : Char} (h : Char.ofNat tag.toNat = c) : tag = c.toUInt8 := by
  have hlt := tag.toNat_lt
  have hvalid : tag.toNat.isValidChar := .inl (by omega)
  have hc : c.val.toNat = tag.toNat := by
    rw [← h, Char.ofNat, dif_pos hvalid]
    rfl
  apply UInt8.toNat.inj
  rw [Char.toUInt8, UInt32.toNat_toUInt8, hc]
  omega

lemma valueShape?_cases {shape : ValueShape} (h : valueShape? tag = some shape) :
    (shape = .constant ∧ ∃ kind : ConstantKind, tag = kind.letter.toUInt8) ∨
      (shape = .enumeration ∧ tag = 'e'.toUInt8) ∨ (shape = .nested ∧ tag = '@'.toUInt8) ∨
        (shape = .array ∧ tag = '['.toUInt8) := by
  have constant (kind : ConstantKind) (hc : Char.ofNat tag.toNat = kind.letter) :
      ∃ kind : ConstantKind, tag = kind.letter.toUInt8 := ⟨kind, eq_toUInt8 hc⟩
  rw [valueShape?] at h
  split at h
  case h_1 hc => exact .inl ⟨(Option.some.inj h).symm, constant .byte hc⟩
  case h_2 hc => exact .inl ⟨(Option.some.inj h).symm, constant .char hc⟩
  case h_3 hc => exact .inl ⟨(Option.some.inj h).symm, constant .double hc⟩
  case h_4 hc => exact .inl ⟨(Option.some.inj h).symm, constant .float hc⟩
  case h_5 hc => exact .inl ⟨(Option.some.inj h).symm, constant .int hc⟩
  case h_6 hc => exact .inl ⟨(Option.some.inj h).symm, constant .long hc⟩
  case h_7 hc => exact .inl ⟨(Option.some.inj h).symm, constant .short hc⟩
  case h_8 hc => exact .inl ⟨(Option.some.inj h).symm, constant .boolean hc⟩
  case h_9 hc => exact .inl ⟨(Option.some.inj h).symm, constant .string hc⟩
  case h_10 hc => exact .inl ⟨(Option.some.inj h).symm, constant .classInfo hc⟩
  case h_11 hc => exact .inr (.inl ⟨(Option.some.inj h).symm, eq_toUInt8 hc⟩)
  case h_12 hc => exact .inr (.inr (.inl ⟨(Option.some.inj h).symm, eq_toUInt8 hc⟩))
  case h_13 hc => exact .inr (.inr (.inr ⟨(Option.some.inj h).symm, eq_toUInt8 hc⟩))
  case h_14 => cases h

end Tags

variable {pool : Pool}

section Accepting

lemma accepts_times {α : Type} {item : Read Unit} {enc : α → Bytes} {as : List α}
    (h : ∀ a ∈ as, Accepts item (enc a) ()) :
    Accepts (times as.length item) (as.flatMap enc) (as.map fun _ => ()) := by
  rw [List.flatMap_def]
  refine Accepts.times ?_ (List.length_map _)
  rw [List.forall₂_map_left_iff, List.forall₂_map_right_iff, List.forall₂_same]
  exact h

lemma Tree.accepts {tree : Tree} {text : String} (htype : pool.utf8 tree.type = .ok text)
    (hcount : tree.pairs.length < 65536)
    (hvalues : ∀ p ∈ tree.pairs, Accepts (skipValue pool) p.2.encode ()) :
    Accepts (Annotations.read pool) tree.encode text := by
  have hpairs : Accepts (times tree.pairs.length (skipPair pool)) (tree.pairs.flatMap encodePair)
      (tree.pairs.map fun _ => ()) :=
    accepts_times fun p hp => (accepts_u16 _ p.1).bind (hvalues p hp)
  have hhead : Accepts (readHead pool) (be16 tree.type ++ count16 tree.pairs.length)
      (text, tree.pairs.length) := by
    have hpair := (accepts_u16 (ε := ClassFault) "annotation"
      (UInt16.ofNat tree.pairs.length)).then_pure fun n => (text, n.toNat)
    rw [toNat_count16 hcount] at hpair
    exact (accepts_u16 _ _).bind ((accepts_lift htype).bind hpair)
  rw [read_eq, encode_eq, ← List.append_assoc]
  exact hhead.bind (hpairs.then_pure fun _ => text)

lemma Value.Fits.accepts {v : Value} (h : v.Fits pool) :
    Accepts (skipValue pool) v.encode () := by
  induction h with
  | constant kind index =>
    rw [skipValue_eq, encode]
    refine (accepts_u8 _ kind.letter.toUInt8).bind ?_
    rw [valueShape?_letter]
    exact (accepts_u16 _ index).then_pure fun _ => ()
  | enumeration type name =>
    rw [skipValue_eq, encode]
    refine (accepts_u8 _ 'e'.toUInt8).bind ?_
    exact (accepts_u16 _ type).bind ((accepts_u16 _ name).then_pure fun _ => ())
  | nested htype hcount _ ih =>
    rw [skipValue_eq, encode]
    refine (accepts_u8 _ '@'.toUInt8).bind ?_
    exact (Tree.accepts htype hcount ih).then_pure fun _ => ()
  | @array values hcount _ ih =>
    have hvalues : Accepts (times (UInt16.ofNat values.length).toNat (skipValue pool))
        (values.flatMap encode) (values.map fun _ => ()) := by
      rw [toNat_count16 hcount]
      exact accepts_times ih
    rw [skipValue_eq, encode_array]
    refine (accepts_u8 _ '['.toUInt8).bind ?_
    exact (accepts_u16 _ _).bind (hvalues.then_pure fun _ => ())

lemma Tree.Fits.accepts {tree : Tree} {text : String} (h : tree.Fits pool)
    (htype : pool.utf8 tree.type = .ok text) :
    Accepts (Annotations.read pool) tree.encode text :=
  Tree.accepts htype h.pairs.1 fun p hp => (h.pairs.2 p hp).accepts

end Accepting

section Taking

variable {nested : Read String} {value : Read Unit}

lemma exists_of_forall₂_spelled {α : Type} {good : α → Prop} {enc : α → Bytes}
    {units : List Unit} {fronts : List Bytes}
    (h : List.Forall₂ (fun _ front => ∃ a, good a ∧ front = enc a) units fronts) :
    ∃ as : List α, as.length = units.length ∧ (∀ a ∈ as, good a) ∧
      fronts.flatten = as.flatMap enc := by
  induction h with
  | nil => exact ⟨[], rfl, nofun, rfl⟩
  | cons ha _ ih =>
    obtain ⟨a, hgood, rfl⟩ := ha
    obtain ⟨as, hlen, has, hfronts⟩ := ih
    refine ⟨a :: as, congrArg (· + 1) hlen, ?_, ?_⟩
    · rintro b (- | ⟨-, hb⟩)
      · exact hgood
      · exact has b hb
    · rw [List.flatten_cons, hfronts, List.flatMap_cons]

lemma takes_times {α : Type} {item : Read Unit} {good : α → Prop} {enc : α → Bytes}
    (h : Takes item fun _ front => ∃ a, good a ∧ front = enc a) (n : Nat) :
    Takes (times n item) fun _ front =>
      ∃ as : List α, as.length = n ∧ (∀ a ∈ as, good a) ∧ front = as.flatMap enc := by
  intro r units r' hr
  obtain ⟨_, hrest, rfl, fronts, hall, rfl⟩ := h.times n r units r' hr
  exact ⟨_, hrest, exists_of_forall₂_spelled hall⟩

lemma count16_of_length {α : Type} {as : List α} {n : UInt16} (h : as.length = n.toNat) :
    count16 as.length = be16 n := by
  rw [count16, h, UInt16.ofNat_toNat]

def TakesValue (pool : Pool) (value : Read Unit) : Prop :=
  Takes value fun _ front => ∃ v : Value, v.Fits pool ∧ front = v.encode

def TakesTree (pool : Pool) (nested : Read String) : Prop :=
  Takes nested fun text front =>
    ∃ tree : Tree, tree.Fits pool ∧ pool.utf8 tree.type = .ok text ∧ front = tree.encode

lemma takes_readHead (pool : Pool) : Takes (readHead pool) fun x front =>
    ∃ type n : UInt16, pool.utf8 type = .ok x.1 ∧ x.2 = n.toNat ∧ front = be16 type ++ be16 n := by
  have htext (index : UInt16) : Takes (lift (pool.utf8 index) : Read String) fun text front =>
      pool.utf8 index = .ok text ∧ front = [] := by
    intro r text r' h
    obtain ⟨htext, rfl⟩ := lift_eq_ok_iff.1 h
    exact ⟨[], rfl, htext, rfl⟩
  refine (takes_u16 _).bind fun type front htype => ?_
  refine (htext type).bind fun text _ h => (takes_u16 _).bind fun n back hn => takes_pure ?_
  obtain ⟨h, rfl⟩ := h
  subst htype hn
  exact ⟨type, n, h, rfl, by simp⟩

lemma takesTree_annotationBy (h : TakesValue pool value) :
    TakesTree pool (annotationBy pool value) := by
  have hpair : Takes (do
      let _ ← Read.u16 "annotation element"
      value) fun _ front => ∃ p : UInt16 × Value, p.2.Fits pool ∧ front = encodePair p := by
    refine (takes_u16 _).bind fun name front hname => ?_
    subst hname
    intro r _ r' hr
    obtain ⟨_, hrest, v, hfits, rfl⟩ := h r _ r' hr
    exact ⟨_, hrest, (name, v), hfits, rfl⟩
  refine (takes_readHead pool).bind fun (text, n) front hhead => ?_
  refine (takes_times hpair n).bind fun _ back hpairs => takes_pure ?_
  obtain ⟨type, n, htype, rfl, rfl⟩ := hhead
  obtain ⟨pairs, hlen, hfits, rfl⟩ := hpairs
  refine ⟨⟨type, pairs⟩, ⟨⟨text, htype⟩, hlen ▸ n.toNat_lt, hfits⟩, htype, ?_⟩
  rw [Tree.encode_eq, count16_of_length hlen]
  simp

lemma takesValue_valueBy (ha : TakesTree pool nested) (hv : TakesValue pool value) :
    TakesValue pool (valueBy nested value) := by
  refine (takes_u8 _).bind fun tag front htag => ?_
  subst htag
  cases hshape : valueShape? tag with
  | none => exact fun _ _ _ h => nomatch h
  | some shape =>
    rcases valueShape?_cases hshape with
      ⟨rfl, kind, rfl⟩ | ⟨rfl, rfl⟩ | ⟨rfl, rfl⟩ | ⟨rfl, rfl⟩
    · refine (takes_u16 _).bind fun index _ hindex => takes_pure ?_
      subst hindex
      exact ⟨.constant kind index, .constant kind index, by simp [Value.encode]⟩
    · refine (takes_u16 _).bind fun type _ htype => ?_
      refine (takes_u16 _).bind fun name _ hname => takes_pure ?_
      subst htype hname
      exact ⟨.enumeration type name, .enumeration type name, by simp [Value.encode]⟩
    · refine Takes.bind ha fun text _ htree => takes_pure ?_
      obtain ⟨tree, ⟨-, hcount, hvalues⟩, htype, rfl⟩ := htree
      exact ⟨.nested tree, .nested htype hcount hvalues, by simp [Value.encode]⟩
    · refine (takes_u16 _).bind fun n _ hn => ?_
      refine (takes_times hv n.toNat).bind fun _ _ hvalues => takes_pure ?_
      subst hn
      obtain ⟨values, hlen, hfits, rfl⟩ := hvalues
      refine ⟨.array values, .array (hlen ▸ n.toNat_lt) hfits, ?_⟩
      rw [Value.encode_array, count16_of_length hlen]
      simp

lemma takesValue_skipValue (pool : Pool) : TakesValue pool (skipValue pool) := by
  have hwithin (depth : Nat) :
      TakesValue pool (valueWithin pool (Read.fail (.trailingBytes 0)) depth) := by
    induction depth with
    | zero => exact takes_fail _ _
    | succ depth ih => exact takesValue_valueBy (takesTree_annotationBy ih) ih
  intro r _ r' hr
  -- the calls go no deeper than there are bytes
  rw [← valueWithin_eq (Nat.lt_succ_self _)] at hr
  exact hwithin _ r _ r' hr

lemma takesTree_read (pool : Pool) : TakesTree pool (Annotations.read pool) := by
  rw [read_eq]
  exact takesTree_annotationBy (takesValue_skipValue pool)

end Taking

section Uniqueness

variable {rest rest' : Bytes}

def Value.shape : Value → ValueShape
  | constant _ _ => .constant
  | enumeration _ _ => .enumeration
  | nested _ => .nested
  | array _ => .array

lemma Value.encode_eq_cons (v : Value) :
    ∃ tag operands, v.encode = tag :: operands ∧ valueShape? tag = some v.shape := by
  cases v with
  | constant kind index => exact ⟨_, _, rfl, valueShape?_letter kind⟩
  | _ => exact ⟨_, _, rfl, rfl⟩

lemma Value.shape_eq {v w : Value} (h : v.encode ++ rest = w.encode ++ rest') :
    v.shape = w.shape := by
  obtain ⟨tag, _, hv, hs⟩ := v.encode_eq_cons
  obtain ⟨tag', _, hw, hs'⟩ := w.encode_eq_cons
  rw [hv, hw] at h
  obtain rfl := (List.cons.inj h).1
  exact Option.some.inj (hs.symm.trans hs')

lemma Tree.eq_of_append {tree tree' : Tree} (hcount : tree.pairs.length < 65536)
    (hcount' : tree'.pairs.length < 65536)
    (hvalues : ∀ p ∈ tree.pairs, ∀ q ∈ tree'.pairs, ∀ rest rest' : Bytes,
      p.2.encode ++ rest = q.2.encode ++ rest' → p.2 = q.2)
    (h : tree.encode ++ rest = tree'.encode ++ rest') : tree = tree' := by
  rw [encode_eq, encode_eq] at h
  simp only [List.append_assoc] at h
  obtain ⟨htype, h⟩ := be16_append_inj h
  obtain ⟨hlen, h⟩ := count16_append_inj hcount hcount' h
  have hpairs : tree.pairs = tree'.pairs := by
    apply eq_of_flatMap_append hlen _ h
    intro p hp q hq rest rest' he
    simp only [encodePair, List.append_assoc] at he
    obtain ⟨hname, he⟩ := be16_append_inj he
    exact Prod.ext hname (hvalues p hp q hq _ _ he)
  cases tree
  cases tree'
  cases htype
  cases hpairs
  rfl

lemma Value.Fits.eq_of_append {v w : Value} (hv : v.Fits pool) (hw : w.Fits pool)
    (h : v.encode ++ rest = w.encode ++ rest') : v = w := by
  induction hv generalizing w rest rest' with
  | constant kind index =>
    cases hw with
    | constant kind' index' =>
      obtain ⟨htag, hindex⟩ := List.cons.inj h
      obtain rfl := toUInt8_letter_injective htag
      obtain ⟨rfl, -⟩ := be16_append_inj hindex
      rfl
    | _ => cases shape_eq h
  | enumeration type name =>
    cases hw with
    | enumeration type' name' =>
      simp only [encode, List.cons_append, List.append_assoc] at h
      obtain ⟨rfl, hname⟩ := be16_append_inj (List.cons.inj h).2
      obtain ⟨rfl, -⟩ := be16_append_inj hname
      rfl
    | _ => cases shape_eq h
  | nested _ hcount _ ih =>
    cases hw with
    | nested _ hcount' hvalues' =>
      rw [encode, encode] at h
      apply congrArg Value.nested
      apply Tree.eq_of_append hcount hcount' _ (List.cons.inj h).2
      intro p hp q hq rest rest' he
      exact ih p hp (hvalues' q hq) he
    | _ => cases shape_eq h
  | array hcount _ ih =>
    cases hw with
    | array hcount' hvalues' =>
      rw [encode_array, encode_array] at h
      simp only [List.cons_append, List.append_assoc] at h
      obtain ⟨hlen, h⟩ := count16_append_inj hcount hcount' (List.cons.inj h).2
      apply congrArg Value.array
      apply eq_of_flatMap_append hlen _ h
      intro v hv w hw rest rest' he
      exact ih v hv (hvalues' w hw) he
    | _ => cases shape_eq h

lemma Tree.Fits.eq_of_append {tree tree' : Tree} (ht : tree.Fits pool) (ht' : tree'.Fits pool)
    (h : tree.encode ++ rest = tree'.encode ++ rest') : tree = tree' :=
  Tree.eq_of_append ht.pairs.1 ht'.pairs.1
    (fun p hp q hq _ _ he => (ht.pairs.2 p hp).eq_of_append (ht'.pairs.2 q hq) he) h

end Uniqueness

lemma exists_tree_of_read {r s : Reader} {text : String}
    (h : Annotations.read pool r = .ok (text, s)) :
    ∃ tree : Tree, tree.Fits pool ∧ pool.utf8 tree.type = .ok text ∧
      r.rest = tree.encode ++ s.rest ∧ s.offset = r.offset + tree.encode.length := by
  obtain ⟨_, hrest, tree, hfits, htype, rfl⟩ := takesTree_read pool r text s h
  obtain ⟨front, hfront, ho⟩ := (precedes_read h).1
  rw [hrest] at hfront
  obtain rfl := List.append_cancel_right hfront
  exact ⟨tree, hfits, htype, hrest, ho⟩

/-- The annotations that are read are the encodings of trees, each of one tree only, and reading stops
at the end of it. Whatever the bytes are, a call begins behind a byte that its caller has taken, and
the reading ends inside of them or fails there. -/
theorem read_follows_grammar (pool : Pool) :
    (∀ (tree : Tree) (text : String) (pos : Nat) (rest : Bytes),
      tree.Fits pool → pool.utf8 tree.type = .ok text →
        Annotations.read pool ⟨pos, tree.encode ++ rest⟩ =
          .ok (text, ⟨pos + tree.encode.length, rest⟩)) ∧
    (∀ (r s : Reader) (text : String), Annotations.read pool r = .ok (text, s) →
      ∃ tree : Tree, tree.Fits pool ∧ pool.utf8 tree.type = .ok text ∧
        r.rest = tree.encode ++ s.rest ∧ s.offset = r.offset + tree.encode.length ∧
        ∀ other : Tree, other.Fits pool → ∀ back, r.rest = other.encode ++ back →
          other = tree) ∧
    (∀ (r : Reader) (nested : Read String) (value : Read Unit),
      (∀ s, r.Precedes s →
        nested s = Annotations.read pool s ∧ value s = skipValue pool s) →
          annotationBy pool value r = Annotations.read pool r ∧
            valueBy nested value r = skipValue pool r) ∧
    (∀ (deepest : Read Unit) (depth : Nat) (r : Reader), r.rest.length < depth →
      annotationBy pool (valueWithin pool deepest depth) r = Annotations.read pool r) ∧
    (∀ r s : Reader, skipValue pool r = .ok ((), s) → r.Precedes s) ∧
    ∀ r : Reader, (∃ text s, Annotations.read pool r = .ok (text, s) ∧ r.Precedes s) ∨
      ∃ fault, Annotations.read pool r = .error fault ∧ fault.LiesIn r := by
  refine ⟨fun tree text pos rest hfits htype => hfits.accepts htype pos rest, ?_, ?_,
    fun deepest depth r => annotationBy_valueWithin, fun r s => precedes_skipValue, ?_⟩
  · intro r s text h
    obtain ⟨tree, hfits, htype, hrest, ho⟩ := exists_tree_of_read h
    refine ⟨tree, hfits, htype, hrest, ho, fun other hother back hback => ?_⟩
    exact hother.eq_of_append hfits (hback.symm.trans hrest)
  · intro r nested value h
    exact ⟨annotationBy_eq fun s hs => (h s hs).2,
      valueBy_eq (fun s hs => (h s hs).1) fun s hs => (h s hs).2⟩
  · intro r
    cases h : Annotations.read pool r with
    | ok x => exact .inl ⟨x.1, x.2, rfl, precedes_read h⟩
    | error fault => exact .inr ⟨fault, rfl, failsInside_read pool r fault h⟩

theorem read_follows_grammar_sample :
    let pool : Pool := ⟨#[.unusable, .utf8 "LA;"], 2, []⟩
    let tree : Tree := ⟨1, [(7, .array [.constant .int 3, .nested ⟨1, []⟩])]⟩
    let bytes : Bytes := [0, 1, 0, 1, 0, 7, 0x5b, 0, 2, 0x49, 0, 3, 0x40, 0, 1, 0, 0, 0x40]
    let r : Reader := ⟨5, bytes⟩
    let s : Reader := ⟨22, [0x40]⟩
    let value : Read Unit := fun t =>
      if t.rest.length < 18 then skipValue pool t else .error (.trailingBytes 0)
    Annotations.read pool r = .ok ("LA;", s) ∧
      (∀ other : Tree, other.Fits pool → ∀ back, bytes = other.encode ++ back → other = tree) ∧
      annotationBy pool value r = .ok ("LA;", s) ∧
      annotationBy pool (valueWithin pool value 19) r = .ok ("LA;", s) ∧
      (⟨11, [0x5b, 0, 0]⟩ : Reader).Precedes ⟨14, []⟩ := by
  intro pool tree bytes r s value
  have hfits : tree.Fits pool := by
    refine ⟨⟨"LA;", rfl⟩, by decide, fun p hp => ?_⟩
    rw [List.mem_singleton] at hp
    subst hp
    refine .array (by decide) fun v hv => ?_
    rcases List.mem_pair.1 hv with rfl | rfl
    · exact .constant .int 3
    · exact .nested rfl (by decide) nofun
  obtain ⟨haccepts, htree, hcalls, hdepth, hvalue, -⟩ := read_follows_grammar pool
  have hread : Annotations.read pool r = .ok ("LA;", s) := haccepts tree "LA;" 5 [0x40] hfits rfl
  refine ⟨hread, ?_, ?_, ?_, ?_⟩
  · obtain ⟨first, -, -, -, -, hunique⟩ := htree r s "LA;" hread
    intro other hother back hback
    rw [hunique other hother back hback, hunique tree hfits [0x40] rfl]
  · rw [← hread]
    exact (hcalls r (Annotations.read pool) value fun t ht => ⟨rfl, if_pos ht.2⟩).1
  · rw [← hread]
    exact hdepth value 19 r (by decide)
  · have hempty : (Value.array []).Fits pool := .array (by decide) nofun
    exact hvalue _ _ (hempty.accepts 11 [])

end Annotations

end ClassWeaver
