import ClassWeaver.Instrumentation
import ClassWeaver.Proofs.Code.Insertion
import ClassWeaver.Proofs.ClassFile.RoundTrip
import ClassWeaver.Proofs.Pool.GrowthSteps

/-! Calls of hooks are neutral. Each one loads a string that the pool has, which takes one more slot,
and hands it to a method without a result. -/

namespace ClassWeaver

open Instruction

def Harmless (pool : Pool) (bs : Bytes) : Prop := ∃ us, decode bs = .ok us ∧ Neutral pool 1 us

namespace Hook

variable {pool : Pool} {text target j : UInt16} {pos : Nat} {s : Stack}

def loading (pos : Nat) (index : UInt16) : Instruction :=
  if index < 256 then ⟨pos, Opcode.ldc, .plain [index.toUInt8]⟩
  else ⟨pos, Opcode.ldcW, .plain (be16 index)⟩

def calling (pos : Nat) (target : UInt16) : Instruction :=
  ⟨pos, Opcode.invokestatic, .plain (be16 target)⟩

lemma encode_loading (pos : Nat) (index : UInt16) : (loading pos index).encode = load index := by
  unfold loading load
  split <;> rfl

lemma loading_shape (pos : Nat) (index : UInt16) : (loading pos index).offset = pos ∧
    (loading pos index).Fits ∧ (loading pos index).IsStraight ∧
      Opcode.isSubroutineCall (loading pos index).opcode = false := by
  unfold loading
  split
  · exact ⟨rfl, .inl rfl, ⟨rfl, rfl⟩, rfl⟩
  · exact ⟨rfl, .inl rfl, ⟨rfl, rfl⟩, rfl⟩

lemma calling_shape (pos : Nat) (target : UInt16) : (calling pos target).Fits ∧
    (calling pos target).IsStraight ∧
      Opcode.isSubroutineCall (calling pos target).opcode = false :=
  ⟨.inl rfl, ⟨rfl, rfl⟩, rfl⟩

lemma apply_loading (h : pool.get? text = some (.string j)) :
    (loading pos text).apply pool s = .ok (.reference :: s) := by
  have hload : ∀ opcode, (opcode == Opcode.ldc2W) = false →
      Effect.load? pool opcode text = some (.exchange [] [.reference]) := by
    intro opcode hop
    unfold Effect.load? Effect.constantKind?
    rw [h]
    simp [hop, ValueKind.width, ValueKind.slots, ValueKind.type]
  rw [apply_eq_ok_iff]
  refine ⟨.exchange [] [.reference], ?_, rfl⟩
  unfold loading
  split
  · next hlow =>
    have hindex : text.toUInt8.toUInt16 = text := by
      apply UInt16.toNat.inj
      have hlt : text.toNat < 256 := UInt16.lt_iff_toNat_lt.1 hlow
      rw [UInt8.toNat_toUInt16, UInt16.toNat_toUInt8]
      omega
    have hof : Effect.of? pool Opcode.ldc (.plain [text.toUInt8]) pos =
        Effect.load? pool Opcode.ldc text.toUInt8.toUInt16 := rfl
    rw [hof, hindex]
    exact hload _ rfl
  · have hof : Effect.of? pool Opcode.ldcW (.plain (be16 text)) pos =
        Effect.load? pool Opcode.ldcW (Operand.word16 (.plain (be16 text))) := rfl
    have hword : Operand.word16 (.plain (be16 text)) = text := ofBe16_be16 text
    rw [hof, hword]
    exact hload _ rfl

lemma apply_calling (h : pool.referenceDescriptor? target = some descriptor) :
    (calling pos target).apply pool (.reference :: s) = .ok s := by
  have hsignature : Descriptor.method? descriptor = some ⟨[.reference], none⟩ := by decide +kernel
  have hinvoke : Effect.invoke? pool Opcode.invokestatic target =
      some (.exchange [.value .reference] []) := by
    unfold Effect.invoke?
    rw [h, Option.bind_some, hsignature]
    rfl
  have hof : Effect.of? pool Opcode.invokestatic (.plain (be16 target)) pos =
      Effect.invoke? pool Opcode.invokestatic (Operand.word16 (.plain (be16 target))) := rfl
  have hword : Operand.word16 (.plain (be16 target)) = target := ofBe16_be16 target
  rw [apply_eq_ok_iff]
  refine ⟨.exchange [.value .reference] [], ?_, rfl⟩
  rw [calling, hof, hword, hinvoke]

/-- What the indices of a call lead to: the text of the site, and the method of the hook. -/
structure Resolves (pool : Pool) (site : String) (h : Hook) (text target : UInt16) : Prop where
  string : ∃ j, pool.get? text = some (.string j) ∧ pool.utf8? j = some site
  reference : ∃ owner member, pool.get? target = some (.methodRef owner member) ∧
    pool.className owner = .ok h.owner
  name : pool.referenceName? target = some h.method
  descriptor : pool.referenceDescriptor? target = some descriptor

lemma Resolves.mono {p q : Pool} {site : String} {h : Hook} (hr : Resolves p site h text target)
    (hq : p.Extends q) : Resolves q site h text target := by
  obtain ⟨⟨j, hj, hsite⟩, ⟨owner, member, htarget, howner⟩, hname, hdescriptor⟩ := hr
  exact ⟨⟨j, hq.get? hj, hq.utf8? hsite⟩, ⟨owner, member, hq.get? htarget, hq.className howner⟩,
    hq.referenceName? hname, hq.referenceDescriptor? hdescriptor⟩

def IsCall (pool : Pool) (site : String) (h : Hook) (is : List Instruction) : Prop :=
  ∃ pos text target, is = [loading pos text, calling (loading pos text).stop target] ∧
    Resolves pool site h text target

def AreCalls (pool : Pool) (site : String) (hooks : List Hook) (is : List Instruction) : Prop :=
  ∃ blocks, is = blocks.flatten ∧ List.Forall₂ (IsCall pool site) hooks blocks

def Calling (pool : Pool) (site : String) (hooks : List Hook) (bs : Bytes) : Prop :=
  ∃ is, decode bs = .ok is ∧ Neutral pool 1 is ∧ AreCalls pool site hooks is

section Calls

variable {site : String} {h : Hook} {hooks : List Hook} {is : List Instruction}

lemma IsCall.mono {p q : Pool} (hc : IsCall p site h is) (hq : p.Extends q) :
    IsCall q site h is := by
  obtain ⟨pos, text, target, rfl, hr⟩ := hc
  exact ⟨pos, text, target, rfl, hr.mono hq⟩

lemma AreCalls.mono {p q : Pool} (hc : AreCalls p site hooks is) (hq : p.Extends q) :
    AreCalls q site hooks is := by
  obtain ⟨blocks, rfl, hall⟩ := hc
  exact ⟨blocks, rfl, hall.imp fun _ _ hc => hc.mono hq⟩

lemma loading_shift (pos pos' : Nat) (text : UInt16) :
    { loading pos' text with offset := pos + pos' } = loading (pos + pos') text := by
  unfold loading
  split <;> rfl

lemma IsCall.layAt (hc : IsCall pool site h is) (pos : Nat) :
    IsCall pool site h (layAt pos is) := by
  obtain ⟨pos', text, target, rfl, hr⟩ := hc
  refine ⟨pos + pos', text, target, ?_, hr⟩
  have hstop : pos + (loading pos' text).stop = (loading (pos + pos') text).stop := by
    rw [← loading_shift, stop, stop, (loading_shape pos' text).1, Nat.add_assoc]
    rfl
  rw [← hstop, ← loading_shift]
  simp [Instruction.layAt, calling, (loading_shape pos' text).1]

lemma AreCalls.layAt (hc : AreCalls pool site hooks is) (pos : Nat) :
    AreCalls pool site hooks (layAt pos is) := by
  obtain ⟨blocks, rfl, hall⟩ := hc
  refine ⟨blocks.map (Instruction.layAt pos), List.map_flatten, ?_⟩
  rw [List.forall₂_map_right_iff]
  exact hall.imp fun _ _ hc => hc.layAt pos

lemma AreCalls.cons {js : List Instruction} (hc : IsCall pool site h is)
    (hcs : AreCalls pool site hooks js) : AreCalls pool site (h :: hooks) (is ++ js) := by
  obtain ⟨blocks, rfl, hall⟩ := hcs
  exact ⟨is :: blocks, rfl, .cons hc hall⟩

lemma Calling.nil (pool : Pool) (site : String) : Calling pool site [] [] :=
  ⟨[], decode_eq_ok_iff.2 ⟨trivial, rfl⟩, .nil, [], rfl, .nil⟩

lemma Resolves.neutral (hr : Resolves pool site h text target) :
    Neutral pool 1 [loading 0 text, calling (loading 0 text).stop target] := by
  obtain ⟨⟨j, ht, -⟩, -, -, hd⟩ := hr
  obtain ⟨ho, -, hs, hn⟩ := loading_shape 0 text
  obtain ⟨-, hs', hn'⟩ := calling_shape (loading 0 text).stop target
  refine ⟨?_, fun pos s => ?_⟩
  · simp [hs, hn, hs', hn']
  · have hload : Instruction.apply pool { loading 0 text with
        offset := pos + (loading 0 text).offset } s = .ok (.reference :: s) := by
      rw [ho, loading_shift]
      exact apply_loading ht
    exact .cons hload (by simp) (.cons (apply_calling hd) (Nat.le_add_right _ _) .nil)

lemma Calling.cons {bs : Bytes} (hr : Resolves pool site h text target)
    (hc : Calling pool site hooks bs) :
    Calling pool site (h :: hooks) (load text ++ Opcode.invokestatic :: be16 target ++ bs) := by
  obtain ⟨vs, hv, nv, cv⟩ := hc
  obtain ⟨tv, rfl⟩ := decode_eq_ok_iff.1 hv
  obtain ⟨ho, hf, -⟩ := loading_shape 0 text
  have hf' := (calling_shape (loading 0 text).stop target).1
  let us := [loading 0 text, calling (loading 0 text).stop target]
  have tu : Tiles 0 us := ⟨ho, hf, rfl, hf', trivial⟩
  have hlaid : Tiles (total size us) (layAt (total size us) vs) :=
    tv.layAt (fun v hv => (nv.straight v hv).1.1) _
  refine ⟨us ++ layAt (total size us) vs, decode_eq_ok_iff.2 ⟨?_, ?_⟩,
    hr.neutral.append (nv.layAt _), .cons ⟨0, text, target, rfl, hr⟩ (cv.layAt _)⟩
  · rw [Tiles.append_iff, Nat.zero_add]
    exact ⟨tu, hlaid⟩
  · rw [encodeAll_append, encodeAll_layAt, ← encode_loading 0 text]
    simp [us, encodeAll, calling, encode, Operand.encode]

lemma Calling.flatten {blocks : List Bytes} (hall : List.Forall₂ (fun h bs => ∃ text target,
    bs = load text ++ Opcode.invokestatic :: be16 target ∧ Resolves pool site h text target)
    hooks blocks) : Calling pool site hooks blocks.flatten := by
  induction hall with
  | nil => exact .nil pool site
  | cons hcall _ ih =>
    obtain ⟨text, target, rfl, hr⟩ := hcall
    exact .cons hr ih

lemma IsCall.total_size_le (hc : IsCall pool site h is) : total Instruction.size is ≤ 6 := by
  obtain ⟨pos, text, target, rfl, -⟩ := hc
  have hload : (loading pos text).size ≤ 3 := by
    unfold loading
    split <;> exact Nat.le_of_ble_eq_true rfl
  have hcall : (calling (loading pos text).stop target).size = 3 := rfl
  rw [total_cons, total_cons, total_nil]
  omega

lemma Calling.length_le {bs : Bytes} (hc : Calling pool site hooks bs) :
    bs.length ≤ 6 * hooks.length := by
  obtain ⟨is, hdecode, -, blocks, rfl, hall⟩ := hc
  rw [(Instruction.decode_eq_ok_iff.1 hdecode).2, Instruction.length_encodeAll]
  clear hdecode
  induction hall with
  | nil => exact Nat.zero_le _
  | cons hcall _ ih =>
    have hsize := hcall.total_size_le
    rw [List.flatten_cons, total_append, List.length_cons]
    omega

lemma Calling.harmless {bs : Bytes} (hc : Calling pool site hooks bs) : Harmless pool bs := by
  obtain ⟨is, hd, hn, -⟩ := hc
  exact ⟨is, hd, hn⟩

end Calls

open Growth in
lemma yields_call {site : String} {h : Hook} {p q : Pool} {bs : Bytes}
    (hp : p.count ≤ Pool.maxSlots) (hy : Yields (call site h) p bs q) :
    p.Grown q ∧ ∃ text target, bs = load text ++ Opcode.invokestatic :: be16 target ∧
      Resolves q site h text target := by
  obtain ⟨text, q1, ht, hy⟩ := yields_bind.1 hy
  obtain ⟨target, q2, hm, hy⟩ := yields_bind.1 hy
  obtain ⟨rfl, rfl⟩ := yields_pure.1 hy
  obtain ⟨g1, j, ht, hj⟩ := (Pool.leads_addString hp trivial).grown ht
  obtain ⟨g2, htarget, hname, hd⟩ :=
    (Pool.leads_addMethodRef (g1.count_le hp) trivial trivial trivial).grown hm
  have hsite := g2.extends.utf8? (Pool.utf8?_eq_some_iff.2 hj)
  exact ⟨g1.trans g2, text, target, rfl, ⟨j, g2.extends.get? ht, hsite⟩, htarget, hname, hd⟩

open Growth in
lemma yields_calls {site : String} {hooks : List Hook} {p q : Pool} {bs : Bytes}
    (hp : p.count ≤ Pool.maxSlots) (hy : Yields (calls site hooks) p bs q) :
    p.Grown q ∧ ∀ r, q.Extends r → Calling r site hooks bs := by
  obtain ⟨blocks, q1, hb, hy⟩ := yields_bind.1 hy
  obtain ⟨rfl, rfl⟩ := yields_pure.1 hy
  obtain ⟨g, hall⟩ := Pool.yields_mapM
    (fun q h bs => ∃ text target, bs = load text ++ Opcode.invokestatic :: be16 target ∧
      Resolves q site h text target) (fun hp hy => yields_call hp hy)
    (fun hq ⟨text, target, hbs, hr⟩ => ⟨text, target, hbs, hr.mono hq⟩) hp hb
  exact ⟨g, fun r hq => .flatten (hall.imp fun _ _ ⟨text, target, hbs, hr⟩ =>
    ⟨text, target, hbs, hr.mono hq⟩)⟩

end Hook

namespace Instrumentation

lemma grow_eq_ok_iff {α : Type} {g : Growth α} {p q : Pool} {a : α} :
    grow g p = .ok (a, q) ↔ g.Yields p a q := by
  unfold grow Growth.Yields
  cases (g.run p : Option α × Pool) with
  | mk o q' =>
    cases o with
    | none =>
      constructor
      · nofun
      · nofun
    | some b =>
      constructor
      · rintro ⟨⟩
        rfl
      · rintro ⟨⟩
        rfl

lemma insertion_calling {site : String} {e : Edit} {p q : Pool} {ins : Insertion}
    (hp : p.count ≤ Pool.maxSlots) (h : grow (insertion site e) p = .ok (ins, q)) :
    p.Grown q ∧ ∀ r, q.Extends r →
      Hook.Calling r site e.enter ins.prologue ∧ Hook.Calling r site e.exit ins.epilogue := by
  obtain ⟨prologue, q1, h1, h⟩ := Growth.yields_bind.1 (grow_eq_ok_iff.1 h)
  obtain ⟨epilogue, q2, h2, h⟩ := Growth.yields_bind.1 h
  obtain ⟨rfl, rfl⟩ := Growth.yields_pure.1 h
  obtain ⟨g1, hprologue⟩ := Hook.yields_calls hp h1
  obtain ⟨g2, hepilogue⟩ := Hook.yields_calls (g1.count_le hp) h2
  exact ⟨g1.trans g2, fun r hr => ⟨hprologue r (g2.extends.trans hr), hepilogue r hr⟩⟩

lemma insertion_harmless {site : String} {e : Edit} {p q : Pool} {ins : Insertion}
    (hp : p.count ≤ Pool.maxSlots) (h : grow (insertion site e) p = .ok (ins, q)) :
    p.Grown q ∧ Harmless q ins.prologue ∧ Harmless q ins.epilogue := by
  obtain ⟨g, hcalling⟩ := insertion_calling hp h
  obtain ⟨hprologue, hepilogue⟩ := hcalling q (.refl q)
  exact ⟨g, hprologue.harmless, hepilogue.harmless⟩

end Instrumentation

/-- A method with hooks is accepted if and only if it is accepted without them, and they take one
slot at most. -/
theorem Code.check_with_hooks {bytes : Bytes} {file : ClassFile} {method : Method} {index : Nat}
    {code : Code} {site : String} {e : Edit} {ins : Insertion} {pool : Pool} {plain hooked : Body}
    (parsed : ClassFile.parse bytes = .ok file) (hm : method ∈ file.methods)
    (hc : method.code = some (index, code))
    (hg : Instrumentation.grow (Instrumentation.insertion site e) file.pool = .ok (ins, pool))
    (hplain : code.relocate file.pool ⟨[], []⟩ = .ok plain)
    (hhooked : code.relocate file.pool ins = .ok hooked) :
    (∀ n, plain.check pool = .ok n → n < 65535 →
      ∃ n', hooked.check pool = .ok n' ∧ n ≤ n' ∧ n' ≤ n + 1) ∧
      ((∃ n', hooked.check pool = .ok n') → ∃ n, plain.check pool = .ok n) := by
  obtain ⟨hw, fits, -⟩ := ClassFile.parse_iff.1 parsed
  obtain ⟨-, -, -, -, -, -, -, codeFits, -⟩ := (fits.methods.2 method hm).exists_code hc
  obtain ⟨-, ⟨prologue, hp, np⟩, epilogue, he, ne⟩ :=
    Instrumentation.insertion_harmless hw.count_le hg
  obtain ⟨hkeep, hback⟩ :=
    Code.relocate_neutral codeFits.nonempty hplain hhooked hp he np ne
  constructor
  · intro n hn hlt
    exact hkeep n hn hlt
  · rintro ⟨n', hn'⟩
    exact hback n' hn'

def Sample.hookedPool : Pool :=
  { Sample.pool with
    slots := #[.unusable, .utf8 "A", .classRef 1, .utf8 "f", .utf8 "()V", .utf8 "Code", .utf8 "s",
      .string 6, .utf8 "h", .classRef 8, .utf8 "e", .utf8 "(Ljava/lang/String;)V",
      .nameAndType 10 11, .methodRef 9 12, .utf8 "x", .nameAndType 14 11, .methodRef 9 15] }

def Sample.hooked : Body :=
  ⟨⟨1, 0, [18, 7, 184, 0, 13, 3, 153, 0, 9, 18, 7, 184, 0, 16, 177, 18, 7, 184, 0, 16, 177], [],
    []⟩, []⟩

theorem Code.check_with_hooks_sample :
    (∃ n', Sample.hooked.check Sample.hookedPool = .ok n' ∧ 1 ≤ n' ∧ n' ≤ 1 + 1) ∧
      ∃ n, Body.check Sample.hookedPool ⟨Sample.code, []⟩ = .ok n := by
  have hm : Sample.method ∈ Sample.file.methods := List.mem_cons_self
  have hg : Instrumentation.grow
      (Instrumentation.insertion "s" ⟨[⟨"h", "e"⟩], [⟨"h", "x"⟩], none, []⟩) Sample.file.pool =
      .ok (⟨[18, 7, 184, 0, 13], [18, 7, 184, 0, 16]⟩, Sample.hookedPool) := by decide +kernel
  have hplain : Sample.code.relocate Sample.file.pool ⟨[], []⟩ = .ok ⟨Sample.code, []⟩ := by decide +kernel
  have hhooked : Sample.code.relocate Sample.file.pool
      ⟨[18, 7, 184, 0, 13], [18, 7, 184, 0, 16]⟩ = .ok Sample.hooked := by decide +kernel
  obtain ⟨hkeep, hback⟩ :=
    Code.check_with_hooks Sample.parse_file hm rfl hg hplain hhooked
  have hcheck := hkeep 1 (by decide +kernel) (by decide)
  exact ⟨hcheck, hback (hcheck.imp fun _ h => h.1)⟩

end ClassWeaver
