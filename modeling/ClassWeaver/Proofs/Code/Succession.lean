import ClassWeaver.Instrumentation
import ClassWeaver.Proofs.ClassFile.RoundTrip
import ClassWeaver.Proofs.Code.AttributeComposition
import ClassWeaver.Proofs.Code.Readability

/-! Code that is inserted into a method whose code has been relocated lies as it would if all of it
had been inserted at once. -/

namespace ClassWeaver

open Instruction Read

def ClassFile.HasCode (file : ClassFile) (a : Attribute) (code : Code) : Prop :=
  ∃ method ∈ file.methods, a ∈ method.attributes ∧ a.name = "Code" ∧
    ∃ pos, a.readBody pos (Code.read file.pool method.signature) = .ok code

lemma ClassFile.HasCode.fits {file : ClassFile} {a : Attribute} {code : Code} {bs : Bytes}
    (h : file.HasCode a code) (hfile : ClassFile.parse bs = .ok file) :
    code.Fits file.pool ∧ a.body = code.encode ∧ a.body.length < 4294967296 := by
  obtain ⟨method, hm, ha, -, pos, hread⟩ := h
  obtain ⟨hfits, hbody⟩ := Code.read_iff.1 hread
  obtain ⟨-, hparsed, -⟩ := ClassFile.parse_iff.1 hfile
  exact ⟨hfits, hbody, ((hparsed.methods.2 method hm).attributes.2 a ha).2⟩

lemma Code.Fits.ext {pool : Pool} {c d : Code} (hc : c.Fits pool) (hd : d.Fits pool)
    (h : c.encode = d.encode) : c = d := by
  have hread : runAt 0 c.encode (Code.read pool "") = .ok c := Code.read_iff.2 ⟨hc, rfl⟩
  rw [Code.read_iff.2 ⟨hd, h⟩] at hread
  exact (Except.ok.inj hread).symm

lemma Code.relocate_limits {pool : Pool} {code : Code} {ins : Insertion} {body : Body}
    (h : code.relocate pool ins = .ok body) :
    body.code.maxStack = code.maxStack ∧ body.code.maxLocals = code.maxLocals := by
  obtain ⟨is, -, h⟩ := bind_eq_ok_iff.1 h
  dsimp only at h
  split at h
  · cases h
  split at h
  · cases h
  · obtain ⟨blocks, -, h⟩ := bind_eq_ok_iff.1 h
    obtain ⟨handlers, -, h⟩ := bind_eq_ok_iff.1 h
    obtain ⟨moved, -, h⟩ := bind_eq_ok_iff.1 h
    cases h
    exact ⟨rfl, rfl⟩

namespace Stacked

variable {pool pool₁ : Pool} {code : Code} {inner outer : Insertion}
  {prologue epilogue : List Instruction} {body₁ body₂ body : Body}
  {placed₁ placed₂ placed : List (Instruction × Place)} {stop₁ stop₂ stop : Nat}

lemma handlers_eq (h : Stacked pool pool₁ code inner outer prologue epilogue body₁ body₂ body
    placed₁ placed₂ placed stop₁ stop₂ stop) : body₂.code.handlers = body.code.handlers := by
  have hagain := (Relocation.composed_moveHandler h.composes).mapM _ _ _
    (mapM_eq_ok_iff.2 h.first.handlers) (mapM_eq_ok_iff.2 h.both.handlers)
  rw [mapM_eq_ok_iff.2 h.second.handlers] at hagain
  exact Except.ok.inj hagain

lemma attributes_eq (h : Stacked pool pool₁ code inner outer prologue epilogue body₁ body₂ body
    placed₁ placed₂ placed stop₁ stop₂ stop) (hp : pool.Extends pool₁) :
    body₂.code.attributes = body.code.attributes ∧ body₂.frames = body.frames := by
  obtain ⟨moved₁, hmoved₁, ha₁, -⟩ := h.first.attributes
  obtain ⟨moved₂, hmoved₂, ha₂, hf₂⟩ := h.second.attributes
  obtain ⟨moved, hmoved, ha, hf⟩ := h.both.attributes
  obtain ⟨as, has, hagain⟩ := Relocation.moveAttributes_again h.composes hp hmoved₁ hmoved
  have hsame : body₁.code.attributes = as := by
    rw [ha₁, has]
    simp
  rw [hsame, hagain] at hmoved₂
  cases hmoved₂
  exact ⟨ha₂.trans ha.symm, hf₂.trans hf.symm⟩

end Stacked

/-- Relocation composes: plain code is inserted, then anything into what came out, wherever that is
read again over a pool that keeps the entries. -/
theorem Code.relocate_within {file file₁ : ClassFile} {bs bs₁ : Bytes} {a a₁ : Attribute}
    {code code₁ : Code} {inner outer : Insertion} {prologue epilogue : List Instruction}
    {body₁ body₂ body : Body} (hfile : ClassFile.parse bs = .ok file)
    (hcode : file.HasCode a code) (hprologue : decode inner.prologue = .ok prologue)
    (hepilogue : decode inner.epilogue = .ok epilogue) (plain_prologue : ∀ i ∈ prologue, i.IsPlain)
    (plain_epilogue : ∀ i ∈ epilogue, i.IsPlain) (h₁ : code.relocate file.pool inner = .ok body₁)
    (hfile₁ : ClassFile.parse bs₁ = .ok file₁) (hpool : file.pool.Extends file₁.pool)
    (hcode₁ : file₁.HasCode a₁ code₁) (hencode : a₁.body = body₁.code.encode)
    (h₂ : code₁.relocate file₁.pool outer = .ok body₂)
    (h : code.relocate file.pool ⟨outer.prologue ++ inner.prologue,
      inner.epilogue ++ outer.epilogue⟩ = .ok body) : body₂ = body := by
  obtain ⟨hfits, -, -⟩ := hcode.fits hfile
  obtain ⟨hfits₁, hbody₁, hshort⟩ := hcode₁.fits hfile₁
  obtain ⟨placed₁, stop₁, hr₁⟩ := relocates h₁
  obtain ⟨placed, stop, hr⟩ := relocates h
  -- the code that is read again is the one that was written
  have hdeltas : ∀ i ∈ epilogue, i.operand.deltas = [] := fun i hi => (plain_epilogue i hi).1
  obtain ⟨-, -, hstop⟩ := hr₁.weave_spec hfits.nonempty hprologue hepilogue hdeltas
  have hne : body₁.code.bytes ≠ [] := by
    have hpos := (hr₁.length_bytes hfits.nonempty hprologue hepilogue hdeltas).1
    rintro hnil
    rw [hnil] at hpos
    cases hpos
  have hwritten := hr₁.fits hfits hpool hstop hne (hencode ▸ hshort)
  obtain rfl : code₁ = body₁.code := hfits₁.ext hwritten (hbody₁.symm.trans hencode)
  obtain ⟨placed₂, stop₂, hr₂⟩ := relocates h₂
  have hs : Stacked file.pool file₁.pool code inner outer prologue epilogue body₁ body₂ body
      placed₁ placed₂ placed stop₁ stop₂ stop :=
    ⟨hfits.nonempty, hprologue, hepilogue, plain_prologue, plain_epilogue, hr₁, hr₂, hr⟩
  obtain ⟨hstack₁, hlocals₁⟩ := relocate_limits h₁
  obtain ⟨hstack₂, hlocals₂⟩ := relocate_limits h₂
  obtain ⟨hstack, hlocals⟩ := relocate_limits h
  obtain ⟨hattributes, hframes⟩ := hs.attributes_eq hpool
  have hbytes := hs.bytes_eq
  have hhandlers := hs.handlers_eq
  have hstacks : body₂.code.maxStack = body.code.maxStack := by rw [hstack₂, hstack₁, hstack]
  have hlocals' : body₂.code.maxLocals = body.code.maxLocals := by rw [hlocals₂, hlocals₁, hlocals]
  obtain ⟨⟨_, _, _, _, _⟩, _⟩ := body₂
  obtain ⟨⟨_, _, _, _, _⟩, _⟩ := body
  simp only [Body.mk.injEq, Code.mk.injEq]
  exact ⟨⟨hstacks, hlocals', hbytes, hhandlers, hattributes⟩, hframes⟩

theorem Code.relocate_within_sample :
    (Sample.code.relocate Sample.pool ⟨[0x03, 0x57], [0x00]⟩ >>= fun body₁ =>
      body₁.code.relocate Sample.pool ⟨[0x00], [0x03, 0x57]⟩) =
    Sample.code.relocate Sample.pool ⟨[0x00, 0x03, 0x57], [0x00, 0x03, 0x57]⟩ := by
  let code₁ : Code :=
    { Sample.code with bytes := [0x03, 0x57, 0x03, 0x99, 0x00, 0x05, 0x00, 0xb1, 0x00, 0xb1] }
  let bytes : Bytes := [0x00, 0x03, 0x57, 0x03, 0x99, 0x00, 0x07, 0x00, 0x03, 0x57, 0xb1, 0x00,
    0x03, 0x57, 0xb1]
  let file₁ : ClassFile :=
    { Sample.file with methods := [Instrumentation.withCode Sample.method 0 code₁] }
  have h₁ : Sample.code.relocate Sample.file.pool ⟨[0x03, 0x57], [0x00]⟩ = .ok ⟨code₁, []⟩ := by
    decide +kernel
  have h₂ : code₁.relocate file₁.pool ⟨[0x00], [0x03, 0x57]⟩ =
      .ok ⟨{ Sample.code with bytes }, []⟩ := by decide +kernel
  have h : Sample.code.relocate Sample.file.pool ⟨[0x00] ++ [0x03, 0x57], [0x00] ++ [0x03, 0x57]⟩ =
      .ok ⟨{ Sample.code with bytes }, []⟩ := by decide +kernel
  have hfile₁ : ClassFile.parse file₁.encode = .ok file₁ := by decide +kernel
  have hcode : Sample.file.HasCode ⟨5, "Code", Sample.code.encode⟩ Sample.code :=
    ⟨Sample.method, List.mem_cons_self, List.mem_cons_self, rfl, 0, by decide +kernel⟩
  have hcode₁ : file₁.HasCode ⟨5, "Code", code₁.encode⟩ code₁ :=
    ⟨_, List.mem_cons_self, List.mem_cons_self, rfl, 0, by decide +kernel⟩
  have hprologue : decode [0x03, 0x57] = .ok [⟨0, 0x03, .plain []⟩, ⟨1, 0x57, .plain []⟩] := by cbv
  have hepilogue : decode [0x00] = .ok [⟨0, 0x00, .plain []⟩] := by cbv
  have hsame := Code.relocate_within Sample.parse_file hcode hprologue hepilogue (by decide)
    (by decide) h₁ hfile₁ (.refl _) hcode₁ rfl h₂ h
  calc (Sample.code.relocate Sample.pool ⟨[0x03, 0x57], [0x00]⟩ >>= fun body₁ =>
        body₁.code.relocate Sample.pool ⟨[0x00], [0x03, 0x57]⟩)
      = code₁.relocate Sample.pool ⟨[0x00], [0x03, 0x57]⟩ := congrArg (· >>= _) h₁
    _ = .ok ⟨{ Sample.code with bytes }, []⟩ := h₂
    _ = Sample.code.relocate Sample.pool ⟨[0x00, 0x03, 0x57], [0x00, 0x03, 0x57]⟩ := by
      rw [hsame]
      exact h.symm

end ClassWeaver
