import ClassWeaver.ClassFile.Reader
import ClassWeaver.Proofs.Basic

/-! What readers read. One whose results are written in one way only is the inverse of writing; of
the others it is enough that they read the same wherever the bytes stand. -/

namespace ClassWeaver

namespace Read

variable {ε α β : Type}

lemma bind_of_ok {item : ReadOr ε α} {next : α → ReadOr ε β} {r s : Reader} {a : α}
    (h : item r = .ok (a, s)) : (item >>= next) r = next a s := by
  simp only [Bind.bind, StateT.bind, Except.bind, h]

lemma bind_of_error {item : ReadOr ε α} {next : α → ReadOr ε β} {r : Reader} {fault : ε}
    (h : item r = .error fault) : (item >>= next) r = .error fault := by
  simp only [Bind.bind, StateT.bind, Except.bind, h]

lemma bind_eq_ok_iff {item : ReadOr ε α} {next : α → ReadOr ε β} {r r' : Reader} {b : β} :
    (item >>= next) r = .ok (b, r') ↔ ∃ a s, item r = .ok (a, s) ∧ next a s = .ok (b, r') := by
  simp only [Bind.bind, StateT.bind, Except.bind]
  cases item r with
  | error fault => simp
  | ok x =>
    obtain ⟨a, s⟩ := x
    simp

lemma bind_eq_error_iff {item : ReadOr ε α} {next : α → ReadOr ε β} {r : Reader} {fault : ε} :
    (item >>= next) r = .error fault ↔
      item r = .error fault ∨ ∃ a s, item r = .ok (a, s) ∧ next a s = .error fault := by
  cases hr : item r with
  | error fault' => simp [bind_of_error hr]
  | ok x =>
    obtain ⟨a, s⟩ := x
    simp [bind_of_ok hr]

lemma pure_eq_ok_iff {a b : α} {r r' : Reader} :
    (pure a : ReadOr ε α) r = .ok (b, r') ↔ b = a ∧ r' = r := by
  constructor
  · intro h
    cases h
    exact ⟨rfl, rfl⟩
  · rintro ⟨rfl, rfl⟩
    rfl

lemma lift_eq_ok_iff {result : Except ε α} {a : α} {r r' : Reader} :
    lift result r = .ok (a, r') ↔ result = .ok a ∧ r' = r := by
  cases result with
  | error fault => simp [lift, Except.map]
  | ok b => simp [lift, Except.map, eq_comm]

lemma runAt_eq_ok_iff {item : ReadOr ε α} {pos : Nat} {bs : Bytes} {a : α} :
    runAt pos bs item = .ok a ↔ ∃ r', item ⟨pos, bs⟩ = .ok (a, r') := by
  rw [runAt, map_eq_ok_iff]
  simp

/-- What `item` takes off the front are the encodings of what fits, and nothing else. -/
def Reads (item : ReadOr ε α) (fits : α → Prop) (enc : α → Bytes) : Prop :=
  ∀ r a r', item r = .ok (a, r') ↔
    fits a ∧ r.rest = enc a ++ r'.rest ∧ r'.offset = r.offset + (enc a).length

section Words

variable [Truncation ε] (context : String)

lemma reads_u8 : Reads (u8 context : ReadOr ε UInt8) (fun _ => True) (fun a => [a]) := by
  rintro ⟨pos, bs⟩ a ⟨pos', rest⟩
  cases bs with
  | nil => simp [u8]
  | cons b bs =>
    constructor
    · intro h
      cases h
      exact ⟨trivial, rfl, rfl⟩
    · rintro ⟨-, hb, hp⟩
      cases hb
      dsimp only at hp
      rw [hp]
      rfl

lemma reads_u16 : Reads (u16 context : ReadOr ε UInt16) (fun _ => True) be16 := by
  rintro ⟨pos, bs⟩ w ⟨pos', rest⟩
  constructor
  · intro h
    unfold u16 at h
    split at h
    · next he =>
      cases h
      cases he
      exact ⟨trivial, by rw [be16_ofBe16]; rfl, by rw [be16_ofBe16]; rfl⟩
    · cases h
  · rintro ⟨-, hb, hp⟩
    dsimp only at hb hp
    subst hb hp
    simp only [be16, List.cons_append, List.nil_append, u16, ofBe16_be16]
    rfl

lemma reads_u32 : Reads (u32 context : ReadOr ε UInt32) (fun _ => True) be32 := by
  rintro ⟨pos, bs⟩ w ⟨pos', rest⟩
  constructor
  · intro h
    unfold u32 at h
    split at h
    · next he =>
      cases h
      cases he
      exact ⟨trivial, by rw [be32_ofBe32]; rfl, by rw [be32_ofBe32]; rfl⟩
    · cases h
  · rintro ⟨-, hb, hp⟩
    dsimp only at hb hp
    subst hb hp
    simp only [be32, List.cons_append, List.nil_append, u32, ofBe32_be32]
    rfl

lemma reads_bytes (n : Nat) :
    Reads (bytes n context : ReadOr ε Bytes) (·.length = n) id := by
  rintro ⟨pos, bs⟩ a ⟨pos', rest⟩
  constructor
  · intro h
    unfold bytes at h
    split at h
    · next he =>
      cases h
      obtain ⟨rfl, hb⟩ := takeExact?_eq_some_iff.1 he
      exact ⟨rfl, hb, rfl⟩
    · cases h
  · rintro ⟨rfl, hb, hp⟩
    dsimp only [id] at hb hp
    subst hb hp
    simp only [bytes, takeExact?_append rfl]

end Words

lemma reads_lift (result : Except ε α) :
    Reads (lift result) (fun a => result = .ok a) (fun _ => []) := by
  rintro ⟨pos, bs⟩ a ⟨pos', rest⟩
  rw [lift_eq_ok_iff]
  simp [eq_comm, and_comm]

lemma reads_pure (b : α) : Reads (pure b : ReadOr ε α) (· = b) (fun _ => []) := by
  rintro ⟨pos, bs⟩ a ⟨pos', rest⟩
  rw [pure_eq_ok_iff]
  simp [eq_comm, and_comm]

lemma Reads.then_iff {item : ReadOr ε α} {next : α → ReadOr ε β} {fits : α → Prop}
    {enc : α → Bytes} (h : Reads item fits enc) {pos : Nat} {bs : Bytes} {x : β × Reader} :
    (item >>= next) ⟨pos, bs⟩ = .ok x ↔
      ∃ a rest, fits a ∧ bs = enc a ++ rest ∧ next a ⟨pos + (enc a).length, rest⟩ = .ok x := by
  obtain ⟨b, r'⟩ := x
  rw [Read.bind_eq_ok_iff]
  constructor
  · rintro ⟨a, ⟨mid, rest⟩, ha, hb⟩
    obtain ⟨fa, ra, oa⟩ := (h _ _ _).1 ha
    dsimp only at ra oa
    subst oa
    exact ⟨a, rest, fa, ra, hb⟩
  · rintro ⟨a, rest, fa, rfl, hb⟩
    exact ⟨a, _, (h _ _ _).2 ⟨fa, rfl, rfl⟩, hb⟩

section Steps

variable {pos : Nat} {bs : Bytes} {x : β × Reader}

lemma lift_then_iff {result : Except ε α} {next : α → ReadOr ε β} :
    (lift result >>= next) ⟨pos, bs⟩ = .ok x ↔ ∃ a, result = .ok a ∧ next a ⟨pos, bs⟩ = .ok x := by
  rw [(reads_lift result).then_iff]
  simp

lemma offset_then_iff {next : Nat → ReadOr ε β} :
    (offset >>= next) ⟨pos, bs⟩ = .ok x ↔ next pos ⟨pos, bs⟩ = .ok x := Iff.rfl

lemma remaining_then_iff {next : Nat → ReadOr ε β} :
    (remaining >>= next) ⟨pos, bs⟩ = .ok x ↔ next bs.length ⟨pos, bs⟩ = .ok x := Iff.rfl

lemma get_then_iff {next : Reader → ReadOr ε β} :
    (get >>= next) ⟨pos, bs⟩ = .ok x ↔ next ⟨pos, bs⟩ ⟨pos, bs⟩ = .ok x := Iff.rfl

lemma else_fail_iff {p : Prop} [Decidable p] {item : ReadOr ε β} {fault : ε} {r : Reader} :
    (if p then item else fail fault) r = .ok x ↔ p ∧ item r = .ok x := by
  split <;> simp [fail, *]

lemma then_fail_iff {p : Prop} [Decidable p] {item : ReadOr ε β} {fault : ε} {r : Reader} :
    (if p then fail fault else item) r = .ok x ↔ ¬ p ∧ item r = .ok x := by
  split <;> simp [fail, *]

variable [Truncation ε] {context : String}

lemma u8_then_iff {next : UInt8 → ReadOr ε β} :
    (u8 context >>= next) ⟨pos, bs⟩ = .ok x ↔
      ∃ w rest, bs = w :: rest ∧ next w ⟨pos + 1, rest⟩ = .ok x := by
  rw [(reads_u8 context).then_iff]
  simp

lemma u16_then_iff {next : UInt16 → ReadOr ε β} :
    (u16 context >>= next) ⟨pos, bs⟩ = .ok x ↔
      ∃ w rest, bs = be16 w ++ rest ∧ next w ⟨pos + 2, rest⟩ = .ok x := by
  rw [(reads_u16 context).then_iff]
  simp

lemma u32_then_iff {next : UInt32 → ReadOr ε β} :
    (u32 context >>= next) ⟨pos, bs⟩ = .ok x ↔
      ∃ w rest, bs = be32 w ++ rest ∧ next w ⟨pos + 4, rest⟩ = .ok x := by
  rw [(reads_u32 context).then_iff]
  simp

lemma bytes_then_iff {n : Nat} {next : Bytes → ReadOr ε β} :
    (bytes n context >>= next) ⟨pos, bs⟩ = .ok x ↔
      ∃ front rest, front.length = n ∧ bs = front ++ rest ∧
        next front ⟨pos + front.length, rest⟩ = .ok x :=
  (reads_bytes context n).then_iff

end Steps

lemma timesFrom_succ (item : ReadOr ε α) (n : Nat) (done : List α) :
    timesFrom item (n + 1) done = item >>= fun a => timesFrom item n (a :: done) := by
  funext r
  simp only [timesFrom, Bind.bind, StateT.bind, Except.bind]
  cases item r <;> rfl

lemma Reads.timesFrom {item : ReadOr ε α} {fits : α → Prop} {enc : α → Bytes}
    (h : Reads item fits enc) {n : Nat} {done as : List α} {r r' : Reader} :
    timesFrom item n done r = .ok (as, r') ↔
      ∃ tail, as = done.reverse ++ tail ∧ tail.length = n ∧ (∀ a ∈ tail, fits a) ∧
        r.rest = tail.flatMap enc ++ r'.rest ∧
        r'.offset = r.offset + (tail.flatMap enc).length := by
  induction n generalizing done r with
  | zero =>
    simp only [Read.timesFrom, Except.ok.injEq, Prod.mk.injEq, List.length_eq_zero_iff]
    constructor
    · rintro ⟨rfl, rfl⟩
      exact ⟨[], by simp, rfl, by simp, rfl, rfl⟩
    · rintro ⟨tail, rfl, rfl, -, hr, ho⟩
      obtain ⟨pos, bs⟩ := r
      obtain ⟨pos', rest⟩ := r'
      simp only [List.flatMap_nil, List.nil_append, List.length_nil, Nat.add_zero] at hr ho
      exact ⟨by simp, by rw [hr, ho]⟩
  | succ n ih =>
    rw [timesFrom_succ, bind_eq_ok_iff]
    constructor
    · rintro ⟨a, s, ha, hok⟩
      obtain ⟨fa, ra, oa⟩ := (h _ _ _).1 ha
      obtain ⟨tail, rfl, rfl, ft, rt, ot⟩ := ih.1 hok
      refine ⟨a :: tail, by simp, rfl, List.forall_mem_cons.2 ⟨fa, ft⟩, ?_, ?_⟩
      · rw [ra, rt, List.flatMap_cons, List.append_assoc]
      · rw [ot, oa, List.flatMap_cons, List.length_append, Nat.add_assoc]
    · rintro ⟨tail, rfl, hl, ft, rt, ot⟩
      cases tail with
      | nil => cases hl
      | cons a tail =>
        rw [List.flatMap_cons, List.append_assoc] at rt
        rw [List.flatMap_cons, List.length_append, ← Nat.add_assoc] at ot
        obtain ⟨fa, ft⟩ := List.forall_mem_cons.1 ft
        exact ⟨a, ⟨r.offset + (enc a).length, tail.flatMap enc ++ r'.rest⟩,
          (h _ _ _).2 ⟨fa, rt, rfl⟩, ih.2 ⟨tail, by simp, by simpa using hl, ft, rfl, ot⟩⟩

def AllFit (fits : α → Prop) (as : List α) : Prop := as.length < 65536 ∧ ∀ a ∈ as, fits a

lemma toNat_count16 {n : Nat} (h : n < 65536) : (UInt16.ofNat n).toNat = n := by
  rw [UInt16.toNat_ofNat']
  omega

lemma count16_append_inj {m n : Nat} (hm : m < 65536) (hn : n < 65536) {rest rest' : Bytes}
    (h : count16 m ++ rest = count16 n ++ rest') : m = n ∧ rest = rest' := by
  obtain ⟨hw, hrest⟩ := be16_append_inj h
  refine ⟨?_, hrest⟩
  rw [← toNat_count16 hm, ← toNat_count16 hn, hw]

lemma Reads.counted [Truncation ε] {item : ReadOr ε α} {fits : α → Prop} {enc : α → Bytes}
    (h : Reads item fits enc) (context : String) :
    Reads (Read.counted context item) (AllFit fits)
      (fun as => count16 as.length ++ as.flatMap enc) := by
  intro r as r'
  rw [Read.counted, bind_eq_ok_iff]
  constructor
  · rintro ⟨n, s, hn, has⟩
    obtain ⟨-, rn, on⟩ := (reads_u16 context _ _ _).1 hn
    obtain ⟨tail, ht, hl, ft, rt, ot⟩ := h.timesFrom.1 has
    obtain rfl : as = tail := ht
    have hcount : count16 as.length = be16 n := by
      rw [count16, hl, UInt16.ofNat_toNat]
    have hlt := n.toNat_lt
    refine ⟨⟨by omega, ft⟩, ?_, ?_⟩ <;> dsimp only
    · rw [hcount, rn, rt, List.append_assoc]
    · rw [hcount, ot, on, List.length_append, Nat.add_assoc]
  · rintro ⟨⟨hl, ft⟩, rt, ot⟩
    rw [List.append_assoc] at rt
    rw [List.length_append, ← Nat.add_assoc] at ot
    exact ⟨UInt16.ofNat as.length, ⟨r.offset + 2, as.flatMap enc ++ r'.rest⟩,
      (reads_u16 context _ _ _).2 ⟨trivial, rt, rfl⟩,
      h.timesFrom.2 ⟨as, rfl, (toNat_count16 hl).symm, ft, rfl, ot⟩⟩

def Carries (item item' : ReadOr ε α) : Prop :=
  ∀ r a r', item r = .ok (a, r') →
    ∃ bs : Bytes, r.rest = bs ++ r'.rest ∧ r'.offset = r.offset + bs.length ∧
      ∀ pos rest, item' ⟨pos, bs ++ rest⟩ = .ok (a, ⟨pos + bs.length, rest⟩)

lemma Reads.carries {item : ReadOr ε α} {fits : α → Prop} {enc : α → Bytes}
    (h : Reads item fits enc) : Carries item item := by
  intro r a r' ha
  obtain ⟨fa, ra, oa⟩ := (h _ _ _).1 ha
  exact ⟨enc a, ra, oa, fun pos rest => (h _ _ _).2 ⟨fa, rfl, rfl⟩⟩

lemma Carries.followed {item item' : ReadOr ε α} {next' : α → ReadOr ε β} (h : Carries item item')
    {r s r' : Reader} {a : α} {b : β} (ha : item r = .ok (a, s))
    (hb : ∃ bs : Bytes, s.rest = bs ++ r'.rest ∧ r'.offset = s.offset + bs.length ∧
      ∀ pos rest, next' a ⟨pos, bs ++ rest⟩ = .ok (b, ⟨pos + bs.length, rest⟩)) :
    ∃ bs : Bytes, r.rest = bs ++ r'.rest ∧ r'.offset = r.offset + bs.length ∧
      ∀ pos rest, (item' >>= next') ⟨pos, bs ++ rest⟩ = .ok (b, ⟨pos + bs.length, rest⟩) := by
  obtain ⟨bs, hr, ho, h1⟩ := h _ _ _ ha
  obtain ⟨cs, hs, ho', h2⟩ := hb
  refine ⟨bs ++ cs, by rw [hr, hs, List.append_assoc], by rw [ho', ho]; simp [Nat.add_assoc], ?_⟩
  intro pos rest
  rw [List.append_assoc, bind_of_ok (h1 pos (cs ++ rest)), h2, List.length_append, Nat.add_assoc]

lemma Carries.bind {item item' : ReadOr ε α} {next next' : α → ReadOr ε β}
    (h : Carries item item') (hn : ∀ a, Carries (next a) (next' a)) :
    Carries (item >>= next) (item' >>= next') := by
  intro r b r' hb
  obtain ⟨a, s, ha, hb⟩ := bind_eq_ok_iff.1 hb
  exact h.followed ha (hn a _ _ _ hb)

lemma carries_pure (a : α) : Carries (pure a : ReadOr ε α) (pure a) := (reads_pure a).carries

lemma carries_lift {result result' : Except ε α} (h : ∀ a, result = .ok a → result' = .ok a) :
    Carries (lift result) (lift result') := by
  intro r a r' ha
  obtain ⟨hres, rfl⟩ := lift_eq_ok_iff.1 ha
  exact ⟨[], rfl, rfl, fun pos rest => lift_eq_ok_iff.2 ⟨h a hres, rfl⟩⟩

lemma carries_fail (fault fault' : ε) : Carries (fail fault : ReadOr ε α) (fail fault') := by
  intro r a r' h
  cases h

lemma carries_u64 [Truncation ε] (context : String) :
    Carries (u64 context : ReadOr ε UInt64) (u64 context) :=
  (reads_u32 context).carries.bind fun _ => (reads_u32 context).carries.bind fun _ => carries_pure _

lemma Carries.timesFrom {item item' : ReadOr ε α} (h : Carries item item') (n : Nat)
    (done : List α) : Carries (timesFrom item n done) (timesFrom item' n done) := by
  induction n generalizing done with
  | zero => exact carries_pure done.reverse
  | succ n ih =>
    rw [timesFrom_succ, timesFrom_succ]
    exact h.bind fun a => ih (a :: done)

lemma Carries.counted [Truncation ε] {item item' : ReadOr ε α} (h : Carries item item')
    (context : String) : Carries (Read.counted context item) (Read.counted context item') :=
  (reads_u16 context).carries.bind fun n => h.timesFrom n.toNat []

lemma Carries.runAt {item item' : ReadOr ε α} (h : Carries item item') {pos : Nat} {bs : Bytes}
    {a : α} (ha : runAt pos bs item = .ok a) (pos' : Nat) : runAt pos' bs item' = .ok a := by
  obtain ⟨r', hr⟩ := runAt_eq_ok_iff.1 ha
  obtain ⟨front, hb, -, h1⟩ := h _ _ _ hr
  dsimp only at hb
  rw [hb]
  exact runAt_eq_ok_iff.2 ⟨_, h1 pos' r'.rest⟩

def Accepts (item : ReadOr ε α) (bs : Bytes) (a : α) : Prop :=
  ∀ pos rest, item ⟨pos, bs ++ rest⟩ = .ok (a, ⟨pos + bs.length, rest⟩)

lemma Reads.accepts {item : ReadOr ε α} {fits : α → Prop} {enc : α → Bytes}
    (h : Reads item fits enc) {a : α} (ha : fits a) : Accepts item (enc a) a :=
  fun _ _ => (h _ _ _).2 ⟨ha, rfl, rfl⟩

lemma accepts_pure (a : α) : Accepts (pure a : ReadOr ε α) [] a := fun _ _ => rfl

lemma Accepts.bind {item : ReadOr ε α} {next : α → ReadOr ε β} {bs cs : Bytes} {a : α} {b : β}
    (h : Accepts item bs a) (hn : Accepts (next a) cs b) : Accepts (item >>= next) (bs ++ cs) b := by
  intro pos rest
  refine bind_eq_ok_iff.2 ⟨a, ⟨pos + bs.length, cs ++ rest⟩, ?_, ?_⟩
  · rw [List.append_assoc]
    exact h pos (cs ++ rest)
  · rw [List.length_append, ← Nat.add_assoc]
    exact hn _ rest

lemma Accepts.bind_nil {item : ReadOr ε α} {next : α → ReadOr ε β} {bs : Bytes} {a : α} {b : β}
    (h : Accepts item bs a) (hn : Accepts (next a) [] b) : Accepts (item >>= next) bs b := by
  have hbind := h.bind hn
  rwa [List.append_nil] at hbind

lemma Accepts.then_pure {item : ReadOr ε α} {bs : Bytes} {a : α} (h : Accepts item bs a)
    (f : α → β) : Accepts (item >>= fun a => pure (f a)) bs (f a) :=
  h.bind_nil (accepts_pure (f a))

lemma accepts_lift {result : Except ε α} {a : α} (h : result = .ok a) :
    Accepts (lift result) [] a := fun _ _ => lift_eq_ok_iff.2 ⟨h, rfl⟩

lemma Accepts.mapFault {ε' : Type} {item : ReadOr ε α} {bs : Bytes} {a : α} (h : Accepts item bs a)
    (f : ε → ε') : Accepts (mapFault f item) bs a :=
  fun pos rest => mapError_eq_ok_iff.2 (h pos rest)

lemma accepts_u8 [Truncation ε] (context : String) (b : UInt8) :
    Accepts (u8 context : ReadOr ε UInt8) [b] b := (reads_u8 context).accepts trivial

lemma accepts_u16 [Truncation ε] (context : String) (w : UInt16) :
    Accepts (u16 context : ReadOr ε UInt16) (be16 w) w := (reads_u16 context).accepts trivial

lemma Accepts.timesFrom {item : ReadOr ε α} {bss : List Bytes} {as : List α}
    (h : List.Forall₂ (Accepts item) bss as) (done : List α) :
    Accepts (timesFrom item as.length done) bss.flatten (done.reverse ++ as) := by
  induction h generalizing done with
  | nil =>
    rw [List.append_nil]
    exact accepts_pure done.reverse
  | @cons bs a bss as ha _ ih =>
    rw [List.length_cons, timesFrom_succ, List.flatten_cons, List.append_cons,
      ← List.reverse_cons]
    exact ha.bind (ih (a :: done))

lemma Accepts.times {item : ReadOr ε α} {bss : List Bytes} {as : List α}
    (h : List.Forall₂ (Accepts item) bss as) {n : Nat} (hn : as.length = n) :
    Accepts (times n item) bss.flatten as :=
  hn ▸ Accepts.timesFrom h []

lemma Accepts.counted [Truncation ε] {item : ReadOr ε α} {bss : List Bytes} {as : List α}
    (h : List.Forall₂ (Accepts item) bss as) (hlen : as.length < 65536) (context : String) :
    Accepts (counted context item) (count16 as.length ++ bss.flatten) as :=
  (accepts_u16 context _).bind (Accepts.times h (toNat_count16 hlen).symm)

def Takes (item : ReadOr ε α) (spells : α → Bytes → Prop) : Prop :=
  ∀ r a r', item r = .ok (a, r') → ∃ front, r.rest = front ++ r'.rest ∧ spells a front

lemma Reads.takes {item : ReadOr ε α} {fits : α → Prop} {enc : α → Bytes}
    (h : Reads item fits enc) : Takes item fun a front => front = enc a := by
  intro r a r' ha
  obtain ⟨-, hr, -⟩ := (h _ _ _).1 ha
  exact ⟨enc a, hr, rfl⟩

lemma takes_u8 [Truncation ε] (context : String) :
    Takes (u8 context : ReadOr ε UInt8) fun b front => front = [b] := (reads_u8 context).takes

lemma takes_u16 [Truncation ε] (context : String) :
    Takes (u16 context : ReadOr ε UInt16) fun w front => front = be16 w :=
  (reads_u16 context).takes

lemma takes_pure {a : α} {spells : α → Bytes → Prop} (h : spells a []) :
    Takes (pure a : ReadOr ε α) spells := by
  intro r b r' hb
  obtain ⟨rfl, rfl⟩ := pure_eq_ok_iff.1 hb
  exact ⟨[], rfl, h⟩

lemma takes_fail (fault : ε) (spells : α → Bytes → Prop) : Takes (fail fault) spells := by
  intro r a r' h
  cases h

lemma Takes.bind {item : ReadOr ε α} {next : α → ReadOr ε β} {first : α → Bytes → Prop}
    {spells : β → Bytes → Prop} (h : Takes item first)
    (hn : ∀ a front, first a front → Takes (next a) fun b rest => spells b (front ++ rest)) :
    Takes (item >>= next) spells := by
  intro r b r' hb
  obtain ⟨a, s, ha, hb⟩ := Read.bind_eq_ok_iff.1 hb
  obtain ⟨front, hr, hfront⟩ := h _ _ _ ha
  obtain ⟨rest, hs, hrest⟩ := hn a front hfront _ _ _ hb
  exact ⟨front ++ rest, by rw [hr, hs, List.append_assoc], hrest⟩

lemma Takes.timesFrom {item : ReadOr ε α} {spells : α → Bytes → Prop} (h : Takes item spells)
    {n : Nat} {done as : List α} {r r' : Reader}
    (hr : timesFrom item n done r = .ok (as, r')) :
    ∃ tail fronts, as = done.reverse ++ tail ∧ tail.length = n ∧
      List.Forall₂ spells tail fronts ∧ r.rest = fronts.flatten ++ r'.rest := by
  induction n generalizing done r with
  | zero =>
    cases hr
    exact ⟨[], [], by simp, rfl, .nil, rfl⟩
  | succ n ih =>
    rw [timesFrom_succ] at hr
    obtain ⟨a, s, ha, hr⟩ := Read.bind_eq_ok_iff.1 hr
    obtain ⟨front, hfront, ha⟩ := h _ _ _ ha
    obtain ⟨tail, fronts, rfl, rfl, hall, hrest⟩ := ih hr
    refine ⟨a :: tail, front :: fronts, by simp, rfl, .cons ha hall, ?_⟩
    rw [hfront, hrest, List.flatten_cons, List.append_assoc]

lemma Takes.times {item : ReadOr ε α} {spells : α → Bytes → Prop} (h : Takes item spells)
    (n : Nat) : Takes (times n item) fun as front =>
      as.length = n ∧ ∃ fronts, List.Forall₂ spells as fronts ∧ front = fronts.flatten := by
  intro r as r' hr
  obtain ⟨tail, fronts, rfl, hlen, hall, hrest⟩ := h.timesFrom hr
  exact ⟨fronts.flatten, hrest, hlen, fronts, hall, rfl⟩

lemma Takes.counted [Truncation ε] {item : ReadOr ε α} {spells : α → Bytes → Prop}
    (h : Takes item spells) (context : String) : Takes (counted context item) fun as front =>
      ∃ fronts, List.Forall₂ spells as fronts ∧ front = count16 as.length ++ fronts.flatten := by
  refine (takes_u16 context).bind fun n front hn => ?_
  intro r as r' hr
  obtain ⟨rest, hrest, hlen, fronts, hall, rfl⟩ := h.times n.toNat r as r' hr
  refine ⟨fronts.flatten, hrest, fronts, hall, ?_⟩
  rw [hn, hlen, count16, UInt16.ofNat_toNat]

end Read

end ClassWeaver
