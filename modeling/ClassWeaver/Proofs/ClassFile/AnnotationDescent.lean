import ClassWeaver.Proofs.ClassFile.Contents

/-! Annotations hold values, and values hold annotations and other values. Passing over all that is
pending comes to two readers that call one another. Each of them calls only where it has taken a
byte, so that the calls go no deeper than there are bytes, and nothing is looked for outside of them. -/

namespace ClassWeaver

namespace Reader

variable {r s t : Reader}

def Reaches (r s : Reader) : Prop :=
  ∃ front : Bytes, r.rest = front ++ s.rest ∧ s.offset = r.offset + front.length

def Precedes (r s : Reader) : Prop := r.Reaches s ∧ s.rest.length < r.rest.length

lemma Reaches.refl (r : Reader) : r.Reaches r := ⟨[], rfl, rfl⟩

lemma Reaches.trans (h : r.Reaches s) (hs : s.Reaches t) : r.Reaches t := by
  obtain ⟨front, hr, ho⟩ := h
  obtain ⟨more, hm, ho'⟩ := hs
  refine ⟨front ++ more, by rw [hr, hm, List.append_assoc], ?_⟩
  rw [ho', ho, List.length_append, Nat.add_assoc]

lemma Reaches.length_le (h : r.Reaches s) : s.rest.length ≤ r.rest.length := by
  obtain ⟨front, hr, -⟩ := h
  rw [hr, List.length_append]
  omega

lemma Precedes.then_reaches (h : r.Precedes s) (hs : s.Reaches t) : r.Precedes t :=
  ⟨h.1.trans hs, Nat.lt_of_le_of_lt hs.length_le h.2⟩

end Reader

/-- It was found in reading from `r`: bytes are missing at a place of its own, or an index does not
lead to what it should. -/
def ClassFault.LiesIn (r : Reader) : ClassFault → Prop
  | .truncated _ pos => r.offset ≤ pos ∧ pos ≤ r.offset + r.rest.length
  | .badConstantRef _ _ => True
  | _ => False

lemma ClassFault.LiesIn.of_reaches {fault : ClassFault} {r s : Reader} (h : fault.LiesIn s)
    (hr : r.Reaches s) : fault.LiesIn r := by
  cases fault with
  | truncated context pos =>
    obtain ⟨hlow, hhigh⟩ := h
    obtain ⟨front, hrest, ho⟩ := hr
    have hlen : r.rest.length = front.length + s.rest.length := by
      rw [hrest, List.length_append]
    exact ⟨by omega, by omega⟩
  | badConstantRef => trivial
  | _ => cases h

namespace Read

variable {α β : Type} {r s : Reader} {context : String}

section Places

lemma Carries.reaches {item : Read α} (h : Carries item item) {a : α} (ha : item r = .ok (a, s)) :
    r.Reaches s := by
  obtain ⟨front, hr, ho, -⟩ := h _ _ _ ha
  exact ⟨front, hr, ho⟩

lemma Carries.precedes {item : Read α} (h : Carries item item) (hc : Consumes item) {a : α}
    (ha : item r = .ok (a, s)) : r.Precedes s := ⟨h.reaches ha, hc _ _ _ ha⟩

lemma precedes_u8 {b : UInt8} (h : (u8 context : Read UInt8) r = .ok (b, s)) : r.Precedes s :=
  (reads_u8 context).carries.precedes (consumes_u8 context) h

lemma precedes_u16 {w : UInt16} (h : (u16 context : Read UInt16) r = .ok (w, s)) : r.Precedes s :=
  (reads_u16 context).carries.precedes (consumes_u16 context) h

def FailsInside (item : Read α) : Prop := ∀ r fault, item r = .error fault → fault.LiesIn r

lemma failsInside_u8 (context : String) : FailsInside (u8 context : Read UInt8) := by
  rintro ⟨pos, bs⟩ fault h
  cases bs with
  | nil =>
    cases h
    exact ⟨Nat.le_refl _, Nat.le_add_right _ _⟩
  | cons b bs => cases h

lemma failsInside_u16 (context : String) : FailsInside (u16 context : Read UInt16) := by
  rintro ⟨pos, bs⟩ fault h
  match bs with
  | [] | [_] =>
    cases h
    exact ⟨Nat.le_refl _, Nat.le_add_right _ _⟩
  | _ :: _ :: _ => cases h

lemma failsInside_pure (a : α) : FailsInside (pure a : Read α) := by
  intro r fault h
  cases h

lemma FailsInside.bind {item : Read α} {next : α → Read β} (h : FailsInside item)
    (hc : Carries item item) (hn : ∀ a, FailsInside (next a)) : FailsInside (item >>= next) := by
  intro r fault hf
  rcases Read.bind_eq_error_iff.1 hf with hf | ⟨a, s, ha, hf⟩
  · exact h r fault hf
  · exact (hn a s fault hf).of_reaches (hc.reaches ha)

lemma FailsInside.word_then {next : UInt16 → Read β} (hn : ∀ w, FailsInside (next w)) :
    FailsInside (u16 context >>= next) :=
  (failsInside_u16 context).bind (reads_u16 context).carries hn

end Places

section Congruence

lemma bind_congr_at {item : Read α} {next next' : α → Read β}
    (h : ∀ a s, item r = .ok (a, s) → next a s = next' a s) :
    (item >>= next) r = (item >>= next') r := by
  cases hr : item r with
  | error fault => rw [bind_of_error hr, bind_of_error hr]
  | ok x => rw [bind_of_ok hr, bind_of_ok hr, h _ _ hr]

lemma then_congr_at {item item' : Read α} {next : α → Read β} (h : item r = item' r) :
    (item >>= next) r = (item' >>= next) r := by
  cases hr : item r with
  | error fault => rw [bind_of_error hr, bind_of_error (h.symm.trans hr)]
  | ok x => rw [bind_of_ok hr, bind_of_ok (h.symm.trans hr)]

lemma timesFrom_congr {item item' : Read α} (hc : Carries item item)
    (h : ∀ s, r.Reaches s → item' s = item s) (n : Nat) (done : List α) :
    timesFrom item' n done r = timesFrom item n done r := by
  induction n generalizing r done with
  | zero => rfl
  | succ n ih =>
    rw [timesFrom_succ, timesFrom_succ, then_congr_at (h r (.refl r))]
    apply bind_congr_at
    intro a s ha
    exact ih (fun t ht => h t ((hc.reaches ha).trans ht)) (a :: done)

lemma timesFrom_then (item : Read α) (n : Nat) (done : List α) (next : Read β) :
    (timesFrom item n done >>= fun _ => next) = times n item >>= fun _ => next := by
  induction n generalizing done with
  | zero => rfl
  | succ n ih => simp only [times, timesFrom_succ, bind_assoc, ih]

lemma times_succ_then (item : Read α) (n : Nat) (next : Read β) :
    (times (n + 1) item >>= fun _ => next) = item >>= fun _ => times n item >>= fun _ => next := by
  simp only [times, timesFrom_succ, bind_assoc, timesFrom_then]

end Congruence

end Read

open Read

namespace Annotations

variable {pool : Pool} {r : Reader}

section Recursion

lemma skip_append (pool : Pool) (first rest : List Pending) :
    skip pool (first ++ rest) = skip pool first >>= fun _ => skip pool rest := by
  funext r
  induction first, r using skip.induct pool with
  | case1 r =>
    rw [skip_nil, pure_bind]
    rfl
  | case2 first r ih =>
    rw [List.cons_append, skip_values_zero, skip_values_zero]
    exact ih
  | case3 first r ih =>
    rw [List.cons_append, skip_pairs_zero, skip_pairs_zero]
    exact ih
  | case4 n first r fault hf =>
    rw [List.cons_append, skip_pairs_succ, skip_pairs_succ, bind_assoc, bind_of_error hf,
      bind_of_error hf]
  | case5 n first r w s hs _ ih =>
    rw [List.cons_append, skip_pairs_succ, skip_pairs_succ, bind_assoc, bind_of_ok hs,
      bind_of_ok hs]
    exact ih
  | case6 n first r fault hf =>
    rw [List.cons_append, skip_values_succ, skip_values_succ, bind_assoc, bind_of_error hf,
      bind_of_error hf]
  | case7 n first r inner s hs _ ih =>
    rw [List.cons_append, skip_values_succ, skip_values_succ, bind_assoc, bind_of_ok hs,
      bind_of_ok hs, ← ih, List.append_assoc]
    rfl

def skipValue (pool : Pool) : Read Unit := readValue pool >>= skip pool

def skipPair (pool : Pool) : Read Unit := do
  let _ ← Read.u16 "annotation element"
  skipValue pool

lemma skip_values (pool : Pool) (n : Nat) (rest : List Pending) :
    skip pool (.values n :: rest) = times n (skipValue pool) >>= fun _ => skip pool rest := by
  induction n with
  | zero =>
    rw [skip_values_zero]
    rfl
  | succ n ih =>
    rw [times_succ_then, ← ih]
    simp only [skip_values_succ, skip_append, skipValue, bind_assoc]

lemma skip_pairs (pool : Pool) (n : Nat) (rest : List Pending) :
    skip pool (.pairs n :: rest) = times n (skipPair pool) >>= fun _ => skip pool rest := by
  induction n with
  | zero =>
    rw [skip_pairs_zero]
    rfl
  | succ n ih =>
    have hone : skip pool (.values 1 :: .pairs n :: rest) =
        skipValue pool >>= fun _ => skip pool (.pairs n :: rest) := by
      rw [skip_values, times_succ_then]
      rfl
    rw [times_succ_then, ← ih, skip_pairs_succ, hone, skipPair, bind_assoc]

def annotationBy (pool : Pool) (value : Read Unit) : Read String := do
  let (type, pairs) ← readHead pool
  let _ ← times pairs (do
    let _ ← Read.u16 "annotation element"
    value)
  return type

def valueBy (nested : Read String) (value : Read Unit) : Read Unit := do
  let tag ← Read.u8 "element value"
  match valueShape? tag with
  | some .constant =>
    let _ ← Read.u16 "element value"
  | some .enumeration =>
    let _ ← Read.u16 "element value"
    let _ ← Read.u16 "element value"
  | some .nested =>
    let _ ← nested
  | some .array =>
    let n ← Read.u16 "element value"
    let _ ← times n.toNat value
  | none => Read.fail (.truncated "element value tag" ((← Read.offset) - 1))

lemma read_eq (pool : Pool) : Annotations.read pool = annotationBy pool (skipValue pool) := by
  simp only [Annotations.read, annotationBy, skip_pairs, skip_nil, bind_assoc, pure_bind]
  rfl

lemma skipValue_eq (pool : Pool) :
    skipValue pool = valueBy (Annotations.read pool) (skipValue pool) := by
  change readValue pool >>= skip pool = _
  rw [readValue, valueBy, bind_assoc]
  congr 1
  funext tag
  cases valueShape? tag with
  | none =>
    funext r
    rfl
  | some shape =>
    cases shape with
    | constant | enumeration => simp only [bind_assoc, pure_bind, skip_nil]
    | nested => simp only [bind_assoc, pure_bind, Annotations.read, bind_pure_unit]
    | array => simp only [bind_assoc, pure_bind, skip_values, skip_nil]

end Recursion

section Calls

variable {nested : Read String} {value : Read Unit}

lemma carries_skipValue (pool : Pool) : Carries (skipValue pool) (skipValue pool) :=
  (carries_readValue (.refl pool)).bind fun _ => carries_skip (.refl pool) _

lemma carries_skipPair (pool : Pool) : Carries (skipPair pool) (skipPair pool) :=
  (reads_u16 _).carries.bind fun _ => carries_skipValue pool

lemma bounded_skip (pool : Pool) (pending : List Pending) : Bounded (skip pool pending) :=
  fun _ _ _ h => ((carries_skip (.refl pool) pending).reaches h).length_le

lemma consumes_readHead (pool : Pool) : Consumes (readHead pool) :=
  (consumes_u16 _).bind fun _ =>
    (bounded_lift _).bind fun _ => (consumes_u16 _).bounded.bind fun _ => bounded_pure _

lemma precedes_readHead {x : String × Nat} {s : Reader} (h : readHead pool r = .ok (x, s)) :
    r.Precedes s := (carries_readHead (.refl pool)).precedes (consumes_readHead pool) h

lemma precedes_read {text : String} {s : Reader} (h : Annotations.read pool r = .ok (text, s)) :
    r.Precedes s := by
  refine (carries_read (.refl pool)).precedes ((consumes_readHead pool).bind fun x => ?_) h
  exact (bounded_skip pool _).bind fun _ => bounded_pure _

lemma precedes_skipValue {s : Reader} (h : skipValue pool r = .ok ((), s)) : r.Precedes s :=
  (carries_skipValue pool).precedes ((consumes_readValue pool).bind (bounded_skip pool)) h

lemma annotationBy_eq (h : ∀ s, r.Precedes s → value s = skipValue pool s) :
    annotationBy pool value r = Annotations.read pool r := by
  rw [read_eq, annotationBy, annotationBy]
  apply bind_congr_at
  intro (type, pairs) s hs
  refine then_congr_at (timesFrom_congr (carries_skipPair pool) ?_ pairs [])
  intro t ht
  apply bind_congr_at
  intro name t' ht'
  exact h t' ((precedes_readHead hs).then_reaches (ht.trans (precedes_u16 ht').1))

lemma valueBy_eq (h : ∀ s, r.Precedes s → nested s = Annotations.read pool s)
    (h' : ∀ s, r.Precedes s → value s = skipValue pool s) :
    valueBy nested value r = skipValue pool r := by
  rw [skipValue_eq, valueBy, valueBy]
  apply bind_congr_at
  intro tag s hs
  cases valueShape? tag with
  | none => rfl
  | some shape =>
    cases shape with
    | constant | enumeration => rfl
    | nested => exact then_congr_at (h s (precedes_u8 hs))
    | array =>
      apply bind_congr_at
      intro n t ht
      refine then_congr_at (timesFrom_congr (carries_skipValue pool) ?_ n.toNat [])
      intro t' ht'
      exact h' t' ((precedes_u8 hs).then_reaches ((precedes_u16 ht).1.trans ht'))

def valueWithin (pool : Pool) (deepest : Read Unit) : Nat → Read Unit
  | 0 => deepest
  | depth + 1 =>
    valueBy (annotationBy pool (valueWithin pool deepest depth)) (valueWithin pool deepest depth)

lemma valueWithin_eq {deepest : Read Unit} {depth : Nat} (h : r.rest.length < depth) :
    valueWithin pool deepest depth r = skipValue pool r := by
  induction depth generalizing r with
  | zero => cases h
  | succ depth ih =>
    have hvalue : ∀ s, r.Precedes s → valueWithin pool deepest depth s = skipValue pool s := by
      intro s hs
      have hlt := hs.2
      exact ih (by omega)
    refine valueBy_eq (fun s hs => annotationBy_eq fun t ht => hvalue t ?_) hvalue
    exact hs.then_reaches ht.1

lemma annotationBy_valueWithin {deepest : Read Unit} {depth : Nat} (h : r.rest.length < depth) :
    annotationBy pool (valueWithin pool deepest depth) r = Annotations.read pool r := by
  apply annotationBy_eq
  intro s hs
  exact valueWithin_eq (Nat.lt_trans hs.2 h)

end Calls

section Faults

lemma failsInside_utf8 (pool : Pool) (index : UInt16) :
    FailsInside (lift (pool.utf8 index) : Read String) := by
  intro r fault h
  rw [Pool.utf8] at h
  split at h
  · cases h
  · cases h
    trivial

lemma failsInside_readHead (pool : Pool) : FailsInside (readHead pool) := by
  refine .word_then fun index => ?_
  refine (failsInside_utf8 pool index).bind (carries_lift fun _ h => h) fun text => ?_
  exact .word_then fun n => failsInside_pure _

lemma failsInside_readValue (pool : Pool) : FailsInside (readValue pool) := by
  intro r fault h
  rcases Read.bind_eq_error_iff.1 h with h | ⟨tag, s, hs, h⟩
  · exact failsInside_u8 _ r fault h
  have hreaches := (precedes_u8 hs).1
  revert h
  cases valueShape? tag with
  | none =>
    -- said of the place of the tag, which lies in front of `s`
    intro h
    cases h
    obtain ⟨-, -, ho⟩ := (reads_u8 _ _ _ _).1 hs
    have hplace : s.offset - 1 = r.offset := by
      rw [ho]
      rfl
    exact ⟨by omega, by omega⟩
  | some shape =>
    intro h
    apply ClassFault.LiesIn.of_reaches _ hreaches
    revert h
    cases shape with
    | constant | array => exact FailsInside.word_then (fun _ => failsInside_pure _) s fault
    | enumeration =>
      exact FailsInside.word_then (fun _ => .word_then fun _ => failsInside_pure _) s fault
    | nested =>
      exact (failsInside_readHead pool).bind (carries_readHead (.refl pool))
        (fun _ => failsInside_pure _) s fault

lemma failsInside_skip (pool : Pool) (pending : List Pending) :
    FailsInside (skip pool pending) := by
  intro r fault h
  induction pending, r using skip.induct pool with
  | case1 r =>
    rw [skip_nil] at h
    cases h
  | case2 rest r ih =>
    rw [skip_values_zero] at h
    exact ih h
  | case3 rest r ih =>
    rw [skip_pairs_zero] at h
    exact ih h
  | case4 n rest r fault' hf =>
    rw [skip_pairs_succ, bind_of_error hf] at h
    cases h
    exact failsInside_u16 _ _ _ hf
  | case5 n rest r w s hs _ ih =>
    rw [skip_pairs_succ, bind_of_ok hs] at h
    exact (ih h).of_reaches (precedes_u16 hs).1
  | case6 n rest r fault' hf =>
    rw [skip_values_succ, bind_of_error hf] at h
    cases h
    exact failsInside_readValue pool _ _ hf
  | case7 n rest r inner s hs _ ih =>
    rw [skip_values_succ, bind_of_ok hs] at h
    exact (ih h).of_reaches ((carries_readValue (.refl pool)).reaches hs)

lemma failsInside_read (pool : Pool) : FailsInside (Annotations.read pool) :=
  (failsInside_readHead pool).bind (carries_readHead (.refl pool)) fun _ =>
    (failsInside_skip pool _).bind (carries_skip (.refl pool) _) fun _ => failsInside_pure _

end Faults

end Annotations

end ClassWeaver
