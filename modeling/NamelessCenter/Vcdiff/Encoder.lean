import NamelessCenter.Vcdiff.Format

/-!
# The instruction encoder

When the matches of a window have been found, the encoder writes them and what lies between them
into the sections of the window. It holds an instruction back until it has seen the next one, since
the two may share a code, while its data and its address are written at once. Whatever matches it is
given, the window means the input (`encode_means`), although neither the matches nor the choice of
codes and modes need be the best ones.
-/

namespace NamelessCenter.Vcdiff

open Bytes Copies Format

/-- The part of the source that the encoder decided on. -/
structure SourceWindow where
  srcbase : Nat
  srclen : Nat
  deriving DecidableEq, Repr

/-- The fields of the stream that the instruction encoder works on. `src` is what is decided on for
the first copy; nothing before depends on it. -/
structure Encoder where
  nextIn : Bytes
  src : Option SourceWindow
  acache : AddrCache := .init CodeTableDesc.rfc3284.nearModes CodeTableDesc.rfc3284.sameModes
  dataTail : Bytes := []
  instTail : Bytes := []
  addrTail : Bytes := []
  unencodedOffset : Nat := 0
  iout : Option Rinst := none

namespace Encoder

/-- `taroff`, the address of the target in the window. -/
def taroff (e : Encoder) : Nat := (e.src.map SourceWindow.srclen).getD 0

/-- The address of a copy in the window, a `usize_t`. -/
def address (e : Encoder) (inst : Rinst) : Nat :=
  match e.src with
  | some src =>
      if inst.xtra ≠ 0 then usizeSub inst.addr src.srcbase
      else (e.taroff + inst.addr % 2 ^ 32) % 2 ^ 32
  | none => inst.addr % 2 ^ 32

/-- `xd3_emit_single`. -/
def emitSingle (e : Encoder) (single : Rinst) (code : Nat) : Encoder :=
  { e with instTail := e.instTail ++ UInt8.ofNat code ::
      if (rfc3284CodeTable.getD code {}).size1 = 0 then emitSize single.size else [] }

/-- `xd3_emit_double`. -/
def emitDouble (e : Encoder) (code : Nat) : Encoder :=
  { e with instTail := e.instTail ++ [UInt8.ofNat code] }

/-- The data or the address of an instruction, in `xd3_iopt_finish_encoding`. -/
def emitOperand (e : Encoder) (inst : Rinst) : Encoder × Rinst :=
  match inst.type with
  | .cpy 0 =>
      let (bs, mode, acache) :=
        encodeAddress e.acache (e.address inst) ((inst.pos + e.taroff) % 2 ^ 32)
      ({ e with addrTail := e.addrTail ++ bs, acache }, { inst with type := .cpy mode })
  | .run => ({ e with dataTail := e.dataTail ++ [inst.xtra] }, inst)
  | .add => ({ e with dataTail := e.dataTail ++ slice e.nextIn inst.pos inst.size }, inst)
  | .noop | .cpy _ => (e, inst)

/-- The codes of `xd3_iopt_finish_encoding`: the instruction that was held back is written, and the
new one with it if there is a code for both. -/
def emitCode (e : Encoder) (inst : Rinst) : Encoder :=
  let (iout, inst) := chooseInstruction e.iout { inst with code2 := 0 }
  match iout with
  | none => { e with iout := some inst }
  | some iout =>
      if iout.code2 ≠ 0 then { e.emitDouble iout.code2 with iout := none }
      else { e.emitSingle iout iout.code1 with iout := some inst }

/-- `xd3_iopt_finish_encoding`, when the source window is decided. -/
def ioptFinishEncoding (e : Encoder) (inst : Rinst) : Encoder :=
  let (e, inst) := e.emitOperand inst
  { e with unencodedOffset := e.unencodedOffset + inst.size }.emitCode inst

/-- `xd3_iopt_add`. -/
def ioptAdd (e : Encoder) (pos : Nat) : Encoder :=
  if pos > e.unencodedOffset then
    e.ioptFinishEncoding
      { type := .add, pos := e.unencodedOffset, size := pos - e.unencodedOffset }
  else e

/-- `xd3_iopt_add_encoding`. -/
def ioptAddEncoding (e : Encoder) (inst : Rinst) : Encoder :=
  (e.ioptAdd inst.pos).ioptFinishEncoding inst

/-- `xd3_iopt_add_finalize`. -/
def ioptAddFinalize (e : Encoder) : Encoder :=
  let e := e.ioptAdd e.nextIn.length
  match e.iout with
  | none => e
  | some iout => { e.emitSingle iout iout.code1 with iout := none }

end Encoder

/-- The sections of a window with the given matches. -/
def encode (nextIn : Bytes) (src : Option SourceWindow) (insts : List Rinst) : Encoder :=
  (insts.foldl Encoder.ioptAddEncoding { nextIn, src }).ioptAddFinalize

namespace Encoder

/-- The offset depends on the source window only. -/
theorem taroff_congr {e f : Encoder} (h : f.src = e.src) : f.taroff = e.taroff := by
  unfold taroff
  rw [h]

/-- Without a source window, the target starts at zero. -/
theorem taroff_none {e : Encoder} (h : e.src = none) : e.taroff = 0 := by
  unfold taroff
  rw [h]
  rfl

/-- With one, it starts behind it. -/
theorem taroff_some {e : Encoder} {w : SourceWindow} (h : e.src = some w) :
    e.taroff = w.srclen := by
  unfold taroff
  rw [h]
  rfl

end Encoder

/-! ## Codes -/

namespace Format

/-- Codes that are parsed one behind the other. -/
inductive Parses (c : Cursor) : List Hinst → Cursor → Prop where
  | refl : Parses c [] c
  | code {hs more : List Hinst} {c' c'' : Cursor} (h : Parses c hs c')
      (hcode : instruction c' = some (more, c'')) : Parses c (hs ++ more) c''

/-- The instructions of a code, and those behind it. -/
theorem instructions_of_code {c c' : Cursor} {first more : List Hinst} {n : Nat}
    (hcode : instruction c = some (first, c')) (h : instructions n c' = some more) :
    instructions (n + 1) c = some (first ++ more) := by
  have hne : c.inst ≠ [] := by
    intro hnil
    have hless := (instruction_parsed hcode).2
    rw [hnil] at hless
    exact Nat.not_lt_zero _ hless
  unfold instructions
  rw [if_neg hne, hcode]
  show (instructions n c').bind _ = _
  rw [h]
  rfl

/-- There are not more codes than bytes. -/
theorem instructions_length {codes : Nat} {c : Cursor} {hs : List Hinst}
    (h : instructions codes c = some hs) {n : Nat} (hn : c.inst.length ≤ n) :
    instructions n c = some hs := by
  induction n generalizing codes c hs with
  | zero =>
      have hinst := List.length_eq_zero_iff.1 (Nat.le_zero.1 hn)
      obtain ⟨haddr, rfl⟩ := instructions_nil h hinst
      exact if_pos ⟨hinst, haddr⟩
  | succ n ih =>
      by_cases hinst : c.inst = []
      · obtain ⟨haddr, rfl⟩ := instructions_nil h hinst
        exact (if_pos hinst).trans (if_pos haddr)
      · obtain ⟨codes', first, c', more, hfirst, hmore, rfl⟩ := instructions_cons h hinst
        have hless := (instruction_parsed hfirst).2
        exact instructions_of_code hfirst (ih hmore (by omega))

/-- Instructions that are parsed, and those behind them. -/
theorem Parses.instructions_append {c c' : Cursor} {hs : List Hinst} (h : Parses c hs c') :
    ∀ {more : List Hinst} {n : Nat}, instructions n c' = some more →
      ∃ m, instructions m c = some (hs ++ more) := by
  induction h with
  | refl => exact fun hmore => ⟨_, hmore⟩
  | code h hcode ih =>
      intro more n hmore
      rw [List.append_assoc]
      exact ih (instructions_of_code hcode hmore)

/-- Codes that use up both sections are the instructions of a window. -/
theorem Parses.instructions {c c' : Cursor} {hs : List Hinst} (h : Parses c hs c')
    (hinst : c'.inst = []) (haddr : c'.addr = []) :
    instructions c.inst.length c = some hs := by
  obtain ⟨m, hm⟩ := h.instructions_append (n := 0) (if_pos ⟨hinst, haddr⟩)
  rw [List.append_nil] at hm
  exact instructions_length hm le_rfl

/-- A half-instruction with its size and its address. -/
theorem half_of {type : Rtype} {size n addr : Nat} {c c₁ c₂ : Cursor} (htype : type ≠ .noop)
    (hsize : c.size size = some (n, c₁)) (haddr : c₁.address type = some (addr, c₂)) :
    half type size c = some ([{ type, size := n, addr }], { c₂ with here := c₂.here + n }) := by
  unfold half
  rw [if_neg htype, hsize]
  show (c₁.address type).bind _ = _
  rw [haddr]
  rfl

/-- The address does not depend on the codes that are left. -/
theorem Cursor.address_inst {c c' : Cursor} {type : Rtype} {addr : Nat}
    (h : c.address type = some (addr, c')) (inst : Bytes) :
    { c with inst }.address type = some (addr, { c' with inst }) := by
  unfold Cursor.address at h ⊢
  cases type with
  | cpy mode =>
      simp only at h ⊢
      cases hread : decodeAddress c.acache c.here mode c.addr with
      | ok decoded =>
          simp only [hread] at h ⊢
          split at h
          · rename_i hless
            cases h
            exact if_pos hless
          · cases h
      | error msg => simp [hread] at h
  | noop | add | run =>
      cases h
      rfl

/-- The bytes of a size, which are none if the table has it. -/
theorem Cursor.size_of {c : Cursor} {size n : Nat} {rest : Bytes} (hn : n < 2 ^ 32)
    (hsize : size = 0 ∨ size = n)
    (hinst : c.inst = (if size = 0 then emitSize n else []) ++ rest) :
    c.size size = some (n, { c with inst := rest }) := by
  unfold Cursor.size
  by_cases hzero : size = 0
  · rw [if_pos hzero] at hinst ⊢
    have hread : readSize c.inst = .ok (n, rest) := by
      rw [hinst]
      exact read_integer_emit_integer (by decide) (by decide) hn rest
    rw [hread]
  · rw [if_neg hzero] at hinst ⊢
    rw [hsize.resolve_left hzero, ← List.nil_append rest, ← hinst]

end Format

/-- The table has the instruction at its code. -/
theorem CodeTableDesc.HasAt.get_d {code : Nat} {d : Dinst}
    (h : CodeTableDesc.rfc3284.HasAt code d) :
    code < 256 ∧ rfc3284CodeTable.getD code {} = d := by
  obtain ⟨hlt, -⟩ := List.getElem?_eq_some_iff.1 h
  rw [CodeTableDesc.rfc3284_consistent.length] at hlt
  refine ⟨hlt, ?_⟩
  rw [List.getD_eq_getElem?_getD, show rfc3284CodeTable[code]? = some d from h]
  rfl

/-- The code fits into a byte. -/
theorem CodeTableDesc.HasAt.get_d_of_nat {code : Nat} {d : Dinst}
    (h : CodeTableDesc.rfc3284.HasAt code d) :
    rfc3284CodeTable.getD (UInt8.ofNat code).toNat {} = d := by
  rw [UInt8.toNat_ofNat', Nat.mod_eq_of_lt h.get_d.1]
  exact h.get_d.2

/-- The code of one instruction. -/
theorem instruction_single {c c' : Cursor} {type : Rtype} {size size1 code addr : Nat}
    {rest : Bytes} (hcode : CodeTableDesc.rfc3284.HasAt code { type1 := type, size1 })
    (hsize1 : size1 = 0 ∨ size1 = size) (hsize : size < 2 ^ 32) (htype : type ≠ .noop)
    (haddr : c.address type = some (addr, c'))
    (hinst : c.inst = UInt8.ofNat code :: ((if size1 = 0 then emitSize size else []) ++ rest)) :
    instruction c =
      some ([{ type, size, addr }], { c' with inst := rest, here := c.here + size }) := by
  have hread := Cursor.size_of (c := { c with inst := (if size1 = 0 then emitSize size else []) ++
    rest }) hsize hsize1 rfl
  have hfirst := half_of htype hread (Cursor.address_inst haddr rest)
  unfold instruction
  rw [hinst]
  simp only [hcode.get_d_of_nat]
  rw [(Cursor.address_eq haddr).1] at hfirst
  show (half _ _ _).bind _ = _
  rw [hfirst]
  rfl

/-- The code of two instructions. -/
theorem instruction_double {c c₁ c₂ : Cursor} {p n : Rinst} {code addr₁ addr₂ : Nat}
    {rest : Bytes} (hcode : CodeTableDesc.rfc3284.HasAt code (pair p n)) (hp : 0 < p.size)
    (hn : 0 < n.size) (hptype : p.type ≠ .noop) (hntype : n.type ≠ .noop)
    (haddr₁ : c.address p.type = some (addr₁, c₁))
    (haddr₂ : { c₁ with here := c.here + p.size }.address n.type = some (addr₂, c₂))
    (hinst : c.inst = UInt8.ofNat code :: rest) :
    instruction c = some ([⟨p.type, p.size, addr₁⟩, ⟨n.type, n.size, addr₂⟩],
      { c₂ with inst := rest, here := c.here + p.size + n.size }) := by
  have hsize : ∀ (c : Cursor) {size : Nat}, 0 < size → c.size size = some (size, c) := by
    intro c size hpos
    exact if_neg (Nat.ne_of_gt hpos)
  have hfirst := half_of hptype (hsize { c with inst := rest } hp) (Cursor.address_inst haddr₁ rest)
  have hsecond := half_of hntype (hsize { c₁ with inst := rest, here := c.here + p.size } hn)
    (Cursor.address_inst haddr₂ rest)
  rw [(Cursor.address_eq haddr₁).1] at hfirst
  rw [(Cursor.address_eq haddr₂).1] at hsecond
  unfold instruction
  rw [hinst]
  simp only [hcode.get_d_of_nat]
  show (half p.type p.size _).bind _ = _
  rw [hfirst]
  show ((half n.type n.size _).bind _) = _
  rw [hsecond]
  rfl

/-! ## What the sections mean -/

namespace Encoder

/-- The instruction that the decoder gets. -/
def hinst (e : Encoder) (inst : Rinst) : Hinst where
  type := inst.type
  size := inst.size
  addr := match inst.type with
    | .cpy _ => e.address inst
    | _ => 0

/-- What an instruction does. -/
def meaning (e : Encoder) (inst : Rinst) : Inst UInt8 :=
  match inst.type with
  | .run => .run inst.xtra inst.size
  | .cpy _ => .copy (e.address inst) inst.size
  | _ => .add (slice e.nextIn inst.pos inst.size)

/-- The segment of the window. -/
def segment (e : Encoder) (source : Bytes) : Bytes :=
  slice source ((e.src.map SourceWindow.srcbase).getD 0) e.taroff

/-- The instruction that is held back. -/
def held (e : Encoder) : List Hinst := e.iout.toList.map e.hinst

/-- The start of the sections with what may follow. -/
def cursor (e : Encoder) (inst addr : Bytes) : Cursor :=
  ⟨e.instTail ++ inst, e.addrTail ++ addr,
    .init CodeTableDesc.rfc3284.nearModes CodeTableDesc.rfc3284.sameModes, e.taroff⟩

/-- What the instruction that is held back takes from the address section. -/
def Owes (e : Encoder) (c c' : Cursor) : Prop :=
  match e.iout with
  | none => c' = c
  | some p => c.address p.type = some ((e.hinst p).addr, c')

/-- The instruction that is held back has a code, and none that it shares yet. -/
structure Held (p : Rinst) : Prop where
  encodable : p.Encodable .rfc3284
  size_lt : p.size < 2 ^ 32
  code1 : ∃ size1, CodeTableDesc.rfc3284.HasAt p.code1 { type1 := p.type, size1 } ∧
    (size1 = 0 ∨ size1 = p.size)
  code2 : p.code2 = 0

/-- The sections hold the instructions `hs` and what belongs to the one that is held back. -/
structure Coded (e : Encoder) (hs : List Hinst) : Prop where
  parses : ∀ inst addr, ∃ c, Parses (e.cursor inst addr) hs c ∧ c.inst = inst ∧
    c.here = e.taroff + totalSize hs ∧ e.Owes c { c with addr, acache := e.acache }
  held : ∀ p, e.iout = some p → Held p
  near : e.acache.sNear = CodeTableDesc.rfc3284.nearModes
  same : e.acache.sSame = CodeTableDesc.rfc3284.sameModes

/-- Instructions that make the input up to `unencodedOffset`. -/
structure Meant (source : Bytes) (e : Encoder) (hs : List Hinst) : Prop where
  data : ∃ is, withData hs e.dataTail = some is ∧ total is = e.unencodedOffset ∧
    DescribesFrom (e.segment source) e.taroff e.nextIn 0 is
  size : totalSize hs = e.unencodedOffset
  le : e.unencodedOffset ≤ e.nextIn.length

/-- An instruction that goes on where the encoder is. -/
structure Fits (source : Bytes) (e : Encoder) (inst : Rinst) : Prop where
  type : inst.type = .add ∨ inst.type = .run ∨ inst.type = .cpy 0
  pos : inst.pos = e.unencodedOffset
  size_pos : 0 < inst.size
  room : inst.pos + inst.size ≤ e.nextIn.length
  describes : (e.meaning inst).Describes (e.segment source) e.taroff e.nextIn inst.pos

/-- The data and the address of an instruction are written. -/
structure Operand (e : Encoder) (inst : Rinst) (bs xs : Bytes) (acache : AddrCache) (n : Rinst) :
    Prop where
  operand : e.emitOperand inst =
    ({ e with addrTail := e.addrTail ++ bs, dataTail := e.dataTail ++ xs, acache }, n)
  size : n.size = inst.size
  encodable : n.Encodable .rfc3284
  address : ∀ (c : Cursor) (addr : Bytes), c.acache = e.acache → c.addr = bs ++ addr →
    c.here = e.taroff + inst.pos →
      c.address n.type = some ((e.hinst n).addr, { c with addr, acache })
  data : withData [e.hinst n] xs = some [e.meaning inst]
  near : acache.sNear = e.acache.sNear
  same : acache.sSame = e.acache.sSame
  data_length : xs.length ≤ inst.size
  addr_length : bs.length ≤ 5

/-- A number of 32 bits takes at most five bytes. -/
theorem length_emit_size_le {num : Nat} (hnum : num < 2 ^ 32) : (emitSize num).length ≤ 5 := by
  refine (length_emit_integer hnum).trans_le ?_
  unfold sizeofUint32
  split_ifs <;> decide

/-- Additions and runs have no mode. -/
theorem encodable_of_data {inst : Rinst} (htype : inst.type = .add ∨ inst.type = .run)
    (hpos : 0 < inst.size) : inst.Encodable .rfc3284 := by
  refine ⟨fun hnoop => ?_, hpos, fun mode hmode => ?_⟩
  · rcases htype with htype | htype <;> exact Rtype.noConfusion (htype.symm.trans hnoop)
  · rcases htype with htype | htype <;> exact Rtype.noConfusion (htype.symm.trans hmode)

/-- Additions and runs take nothing from the address section. -/
theorem address_of_data {e : Encoder} {inst : Rinst} {c : Cursor} {addr : Bytes}
    (htype : inst.type = .add ∨ inst.type = .run) (hcache : c.acache = e.acache)
    (haddr : c.addr = [] ++ addr) :
    c.address inst.type = some ((e.hinst inst).addr, { c with addr, acache := e.acache }) := by
  rw [← hcache, ← List.nil_append addr, ← haddr]
  unfold hinst
  rcases htype with htype | htype
  · rw [htype]
    rfl
  · rw [htype]
    rfl

/-- What is written of an instruction besides its code can be read again. -/
theorem emit_operand_spec {source : Bytes} {e : Encoder} {inst : Rinst} (h : e.Fits source inst)
    (hnear : e.acache.sNear = CodeTableDesc.rfc3284.nearModes)
    (hsame : e.acache.sSame = CodeTableDesc.rfc3284.sameModes)
    (hlimit : e.taroff + e.nextIn.length < 2 ^ 32) :
    ∃ bs xs acache n, Operand e inst bs xs acache n := by
  have hroom := h.room
  have hpos := h.size_pos
  rcases h.type with htype | htype | htype
  · have hlength : (slice e.nextIn inst.pos inst.size).length = inst.size :=
      length_slice_of_le hroom
    refine ⟨[], slice e.nextIn inst.pos inst.size, e.acache, inst, ?_, rfl, ?_, ?_, ?_, rfl, rfl,
      hlength.le, Nat.zero_le _⟩
    · unfold emitOperand
      simp only [htype, List.append_nil]
    · exact encodable_of_data (.inl htype) hpos
    · exact fun c addr hcache haddr _ => address_of_data (.inl htype) hcache haddr
    · unfold hinst meaning
      simp only [htype, withData]
      rw [if_pos hlength.ge, List.drop_of_length_le hlength.le, List.take_of_length_le hlength.le]
      rfl
  · refine ⟨[], [inst.xtra], e.acache, inst, ?_, rfl, ?_, ?_, ?_, rfl, rfl, hpos, Nat.zero_le _⟩
    · unfold emitOperand
      simp only [htype, List.append_nil]
    · exact encodable_of_data (.inr htype) hpos
    · exact fun c addr hcache haddr _ => address_of_data (.inr htype) hcache haddr
    · unfold hinst meaning
      simp only [htype, withData]
      rfl
  · have hdescribes := h.describes
    unfold meaning at hdescribes
    simp only [htype] at hdescribes
    -- A copy begins in front of the position.
    have hbefore : e.address inst < inst.pos + e.taroff := by
      have hwhere := hdescribes.2
      by_cases hseg : e.address inst < e.taroff
      · omega
      · rw [if_neg hseg] at hwhere
        omega
    have hhere : (inst.pos + e.taroff) % 2 ^ 32 = inst.pos + e.taroff := Nat.mod_eq_of_lt (by omega)
    obtain ⟨bs, mode, hencode, hmode, -⟩ :=
      decode_address_encode_address e.acache hbefore (by omega) []
    rw [hnear, hsame] at hmode
    refine ⟨bs, [], e.acache.update (e.address inst), { inst with type := .cpy mode }, ?_, rfl, ?_,
      ?_, ?_, rfl, rfl, Nat.zero_le _, ?_⟩
    · unfold emitOperand
      simp only [htype, hhere, hencode, List.append_nil]
    · exact ⟨Rtype.noConfusion, hpos, fun mode' hmode' => by cases hmode'; exact hmode⟩
    · intro c addr hcache haddr hc
      obtain ⟨bs', mode', hencode', -, hdecode⟩ :=
        decode_address_encode_address e.acache hbefore (by omega) addr
      rw [hencode, Prod.mk.injEq, Prod.mk.injEq] at hencode'
      obtain ⟨rfl, rfl, -⟩ := hencode'
      unfold Cursor.address
      rw [Nat.add_comm] at hc
      simp only [hcache, haddr, hc, hdecode]
      exact if_pos hbefore
    · unfold hinst meaning
      simp only [htype, withData]
      rfl
    · obtain ⟨good, d, m, -, hcodes, -, -⟩ := best_address_spec e.acache hbefore (by omega)
      have hd := hcodes.le_here hbefore
      have hlength := length_encode_address_le hbefore (by omega) (Nat.succ_pos 4)
        (.inl ⟨d, m, hcodes, fun k hk => length_emit_size_le (by omega)⟩)
      rw [hencode] at hlength
      exact hlength

/-- The sections hold the instructions `hs` and nothing else. -/
def Flushed (e : Encoder) (hs : List Hinst) : Prop :=
  ∀ inst addr, Parses (e.cursor inst addr) hs ⟨inst, addr, e.acache, e.taroff + totalSize hs⟩

/-- Without a pending instruction, all are written. -/
theorem Coded.flushed {e : Encoder} {hs : List Hinst} (h : e.Coded hs) (hiout : e.iout = none) :
    e.Flushed hs := by
  intro inst addr
  obtain ⟨c, hparses, hinst, hhere, howes⟩ := h.parses inst addr
  unfold Owes at howes
  simp only [hiout] at howes
  rw [← howes, hinst, hhere] at hparses
  exact hparses

/-- The instruction that is held back is written by itself. -/
theorem Coded.emit_single {e : Encoder} {hs : List Hinst} {p : Rinst} (h : e.Coded hs)
    (hiout : e.iout = some p) : (e.emitSingle p p.code1).Flushed (hs ++ [e.hinst p]) := by
  intro inst addr
  have hheld := h.held p hiout
  obtain ⟨size1, hcode, hsize1⟩ := hheld.code1
  obtain ⟨c, hparses, hinst, hhere, howes⟩ := h.parses
    (UInt8.ofNat p.code1 :: ((if size1 = 0 then emitSize p.size else []) ++ inst)) addr
  unfold Owes at howes
  simp only [hiout] at howes
  have hstep := instruction_single hcode hsize1 hheld.size_lt hheld.encodable.type_ne howes hinst
  have hcursor : (e.emitSingle p p.code1).cursor inst addr = e.cursor
      (UInt8.ofNat p.code1 :: ((if size1 = 0 then emitSize p.size else []) ++ inst)) addr := by
    unfold cursor Encoder.emitSingle
    simp only [hcode.get_d.2, List.append_assoc, List.cons_append]
    rfl
  have hposition : e.taroff + totalSize (hs ++ [e.hinst p]) = c.here + p.size := by
    rw [hhere, total_size_append, ← Nat.add_assoc]
    rfl
  rw [hcursor]
  show Parses _ _ ⟨inst, addr, e.acache, e.taroff + totalSize (hs ++ [e.hinst p])⟩
  rw [hposition]
  exact hparses.code hstep

/-- The instruction that is held back is written together with the next one. -/
theorem Coded.emit_double {e : Encoder} {hs : List Hinst} {p n inst : Rinst} {bs xs : Bytes}
    {acache : AddrCache} {code u : Nat} (h : e.Coded hs) (hiout : e.iout = some p)
    (hop : Operand e inst bs xs acache n)
    (hpos : inst.pos = totalSize (hs ++ [e.hinst p]))
    (hcode : CodeTableDesc.rfc3284.HasAt code (pair p n)) :
    Flushed { e with
      addrTail := e.addrTail ++ bs, dataTail := e.dataTail ++ xs, acache, unencodedOffset := u
      instTail := e.instTail ++ [UInt8.ofNat code], iout := none }
      (hs ++ [e.hinst p, e.hinst n]) := by
  intro inst' addr
  have hheld := h.held p hiout
  obtain ⟨c, hparses, hinst, hhere, howes⟩ := h.parses (UInt8.ofNat code :: inst') (bs ++ addr)
  unfold Owes at howes
  simp only [hiout] at howes
  have hsize : totalSize (hs ++ [e.hinst p]) = totalSize hs + p.size := total_size_append _ _
  have hnext := hop.address ⟨c.inst, bs ++ addr, e.acache, c.here + p.size⟩ addr rfl rfl (by
    show c.here + p.size = _
    omega)
  have hstep := instruction_double hcode hheld.encodable.size_pos hop.encodable.size_pos
    hheld.encodable.type_ne hop.encodable.type_ne howes hnext hinst
  have hcursor : Encoder.cursor { e with
      addrTail := e.addrTail ++ bs, dataTail := e.dataTail ++ xs, acache, unencodedOffset := u
      instTail := e.instTail ++ [UInt8.ofNat code], iout := none } inst' addr =
      e.cursor (UInt8.ofNat code :: inst') (bs ++ addr) := by
    unfold cursor
    simp only [List.append_assoc, List.singleton_append]
    rfl
  have hposition : e.taroff + totalSize (hs ++ [e.hinst p, e.hinst n]) =
      c.here + p.size + n.size := by
    have htotal : totalSize (hs ++ [e.hinst p, e.hinst n]) = totalSize hs + (p.size + n.size) :=
      total_size_append _ _
    omega
  rw [hcursor]
  show Parses _ _ ⟨inst', addr, acache, e.taroff + totalSize (hs ++ [e.hinst p, e.hinst n])⟩
  rw [hposition]
  exact hparses.code hstep

/-- The next instruction is held back. -/
theorem Flushed.hold {e : Encoder} {hs : List Hinst} {n inst : Rinst} {bs xs instTail : Bytes}
    {acache : AddrCache} {code1 code2 u : Nat} (h : Flushed { e with instTail } hs)
    (hop : Operand e inst bs xs acache n) (hpos : inst.pos = totalSize hs) :
    ∀ inst addr, ∃ c, Parses (Encoder.cursor { e with
        addrTail := e.addrTail ++ bs, dataTail := e.dataTail ++ xs, acache, unencodedOffset := u
        instTail, iout := some { n with code1, code2 } } inst addr) hs c ∧ c.inst = inst ∧
      c.here = e.taroff + totalSize hs ∧
      c.address n.type = some ((e.hinst n).addr, { c with addr, acache }) := by
  intro inst' addr
  refine ⟨⟨inst', bs ++ addr, e.acache, e.taroff + totalSize hs⟩, ?_, rfl, rfl,
    hop.address _ addr rfl rfl (by rw [hpos])⟩
  have hparses := h inst' (bs ++ addr)
  unfold cursor at hparses ⊢
  rw [← List.append_assoc] at hparses
  exact hparses

/-- An instruction takes a code and at most five bytes of its size. -/
theorem length_emit_single (e : Encoder) {p : Rinst} (code : Nat) (hsize : p.size < 2 ^ 32) :
    (e.emitSingle p code).instTail.length ≤ e.instTail.length + 6 := by
  have hlength := length_emit_size_le hsize
  unfold Encoder.emitSingle
  rw [List.length_append, List.length_cons]
  split
  · omega
  · rw [List.length_nil]
    omega

/-- The next instruction is written with the one that was held back, or is held back itself. -/
theorem Coded.emit_code {e : Encoder} {hs : List Hinst} {n inst : Rinst} {bs xs : Bytes}
    {acache : AddrCache} {u : Nat} (h : e.Coded hs) (hop : Operand e inst bs xs acache n)
    (hsize : n.size < 2 ^ 32) (hpos : inst.pos = totalSize (hs ++ e.held)) :
    ∃ instTail iout hs', Encoder.emitCode { e with
        addrTail := e.addrTail ++ bs, dataTail := e.dataTail ++ xs, acache, unencodedOffset := u }
          n = { e with
        addrTail := e.addrTail ++ bs, dataTail := e.dataTail ++ xs, acache, unencodedOffset := u
        instTail, iout } ∧
      Coded { e with
        addrTail := e.addrTail ++ bs, dataTail := e.dataTail ++ xs, acache, unencodedOffset := u
        instTail, iout } hs' ∧
      hs' ++ iout.toList.map e.hinst = hs ++ e.held ++ [e.hinst n] ∧
      instTail.length + 6 * iout.toList.length ≤
        e.instTail.length + 6 * e.iout.toList.length + 6 := by
  have hn : Rinst.Encodable .rfc3284 { n with code2 := 0 } :=
    ⟨hop.encodable.type_ne, hop.encodable.size_pos, hop.encodable.mode_lt⟩
  have hchosen := choose_instruction_chosen hn fun p hp => (h.held p hp).encodable
  unfold Encoder.emitCode
  rcases hchoice : chooseInstruction e.iout { n with code2 := 0 } with ⟨prev, n'⟩
  rw [hchoice] at hchosen
  obtain ⟨code1, rfl⟩ : ∃ code1, n' = { n with code1, code2 := 0 } := ⟨_, hchosen.inst_eq⟩
  have hheld : Held { n with code1, code2 := 0 } := by
    obtain ⟨size1, hcode, hsize1, -⟩ := hchosen.code1
    exact ⟨⟨hn.type_ne, hn.size_pos, hn.mode_lt⟩, hsize, ⟨size1, hcode, hsize1⟩, rfl⟩
  have hnear := hop.near.trans h.near
  have hsame := hop.same.trans h.same
  unfold Encoder.held at hpos ⊢
  cases hiout : e.iout with
  | none =>
      cases hchosen.prev_none hiout
      rw [hiout] at hpos
      have hpos' : inst.pos = totalSize hs := by simpa using hpos
      have hflushed : Flushed { e with instTail := e.instTail } hs := h.flushed hiout
      refine ⟨e.instTail, some { n with code1, code2 := 0 }, hs, rfl,
        ⟨hflushed.hold hop hpos', fun p hp => ?_, hnear, hsame⟩, ?_, le_rfl⟩
      · cases hp
        exact hheld
      · exact congrArg (· ++ [e.hinst n]) (List.append_nil hs).symm
  | some p =>
      obtain ⟨code2, rfl, hpair, hother⟩ := hchosen.code2 p hiout
      rw [hiout] at hpos
      have hpos' : inst.pos = totalSize (hs ++ [e.hinst p]) := hpos
      by_cases hzero : code2 = 0
      · have hflushed := h.emit_single hiout
        refine ⟨(e.emitSingle p p.code1).instTail, some { n with code1, code2 := 0 },
          hs ++ [e.hinst p], ?_, ⟨hflushed.hold hop hpos', fun p' hp => ?_, hnear, hsame⟩, rfl,
          ?_⟩
        · simp only [hzero, ne_eq, not_true_eq_false, if_false]
          rfl
        · cases hp
          exact hheld
        · have hlength := e.length_emit_single p.code1 (h.held p hiout).size_lt
          simp only [Option.toList_some, List.length_singleton]
          omega
      · -- A pair that the table does not have keeps the code it had, which is none.
        have hmem : pair p { n with code2 := 0 } ∈ buildCodeTable .rfc3284 := by
          by_contra hnot
          exact hzero ((hother hnot).trans (h.held p hiout).code2)
        have hflushed := h.emit_double (u := u) hiout hop hpos' (hpair hmem)
        refine ⟨e.instTail ++ [UInt8.ofNat code2], none, hs ++ [e.hinst p, e.hinst n], ?_,
          ⟨fun inst addr => ?_, fun p' hp => (by cases hp), hnear, hsame⟩, ?_, ?_⟩
        · simp only [ne_eq, hzero, not_false_eq_true, if_true]
          rfl
        · exact ⟨_, hflushed inst addr, rfl, rfl, rfl⟩
        · exact (List.append_nil _).trans (List.append_assoc hs [e.hinst p] [e.hinst n]).symm
        · rw [List.length_append]
          simp only [Option.toList_some, Option.toList_none, List.length_singleton, List.length_nil]
          omega

/-- The data of two lists of instructions follow one another. -/
theorem with_data_append {hs hs' : List Hinst} {xs ys : Bytes} {is js : List (Inst UInt8)}
    (h : withData hs xs = some is) (h' : withData hs' ys = some js) :
    withData (hs ++ hs') (xs ++ ys) = some (is ++ js) := by
  induction hs generalizing xs is with
  | nil =>
      unfold withData at h
      split at h
      · rename_i hnil
        cases h
        rw [hnil]
        exact h'
      · cases h
  | cons hinst hs ih =>
      rw [List.cons_append]
      unfold withData at h ⊢
      cases hkind : hinst.type with
      | noop =>
          simp only [hkind] at h ⊢
          exact ih h
      | run =>
          simp only [hkind] at h ⊢
          cases xs with
          | nil => cases h
          | cons b rest =>
              obtain ⟨ks, hrest, rfl⟩ := Option.map_eq_some_iff.1 h
              exact Option.map_eq_some_iff.2 ⟨_, ih hrest, rfl⟩
      | add =>
          simp only [hkind] at h ⊢
          split at h
          · rename_i hle
            obtain ⟨ks, hrest, rfl⟩ := Option.map_eq_some_iff.1 h
            have hle' : hinst.size ≤ (xs ++ ys).length := by
              rw [List.length_append]
              omega
            rw [if_pos hle', List.take_append_of_le_length hle, List.drop_append_of_le_length hle]
            exact Option.map_eq_some_iff.2 ⟨_, ih hrest, rfl⟩
          · cases h
      | cpy mode =>
          simp only [hkind] at h ⊢
          obtain ⟨ks, hrest, rfl⟩ := Option.map_eq_some_iff.1 h
          exact Option.map_eq_some_iff.2 ⟨_, ih hrest, rfl⟩

/-- The sections are not much longer than what they stand for. -/
structure Small (e : Encoder) : Prop where
  data : e.dataTail.length ≤ e.unencodedOffset
  inst : e.instTail.length + 6 * e.iout.toList.length ≤ 6 * e.unencodedOffset
  addr : e.addrTail.length ≤ 5 * e.unencodedOffset

/-- The sections hold the input up to `unencodedOffset`. -/
def Encodes (source : Bytes) (e : Encoder) : Prop :=
  ∃ hs, e.Coded hs ∧ Meant source e (hs ++ e.held) ∧ e.Small

/-- An instruction that goes on where the encoder is. -/
theorem Encodes.iopt_finish_encoding {source : Bytes} {e : Encoder} {inst : Rinst}
    (h : Encodes source e) (hfits : e.Fits source inst)
    (hlimit : e.taroff + e.nextIn.length < 2 ^ 32) :
    Encodes source (e.ioptFinishEncoding inst) ∧
      (e.ioptFinishEncoding inst).nextIn = e.nextIn ∧ (e.ioptFinishEncoding inst).src = e.src ∧
      (e.ioptFinishEncoding inst).unencodedOffset = inst.pos + inst.size := by
  obtain ⟨hs, hcoded, ⟨⟨is, hdata, htotal, hdescribes⟩, hsize, -⟩, hsmall⟩ := h
  obtain ⟨bs, xs, acache, n, hop⟩ := emit_operand_spec hfits hcoded.near hcoded.same hlimit
  have hroom := hfits.room
  have hpos := hfits.pos
  have hn : n.size < 2 ^ 32 := by
    rw [hop.size]
    omega
  obtain ⟨instTail, iout, hs', hemit, hcoded', hall, hlength⟩ :=
    hcoded.emit_code (u := e.unencodedOffset + n.size) hop hn (hpos.trans hsize.symm)
  have hstep : e.ioptFinishEncoding inst = { e with
      addrTail := e.addrTail ++ bs, dataTail := e.dataTail ++ xs, acache
      unencodedOffset := e.unencodedOffset + n.size, instTail, iout } := by
    unfold Encoder.ioptFinishEncoding
    rw [hop.operand]
    exact hemit
  have hmeaning : (e.meaning inst).size = inst.size := by
    unfold meaning
    rcases hfits.type with htype | htype | htype
    · simp only [htype]
      exact length_slice_of_le hroom
    · simp only [htype]
      rfl
    · simp only [htype]
      rfl
  rw [hstep]
  refine ⟨⟨hs', hcoded', ?_, ?_⟩, rfl, rfl, ?_⟩
  · show Meant source _ (hs' ++ iout.toList.map e.hinst)
    rw [hall]
    refine ⟨⟨is ++ [e.meaning inst], with_data_append hdata hop.data, ?_, hdescribes.append ?_⟩, ?_,
      ?_⟩
    · show total _ = e.unencodedOffset + n.size
      rw [total_append, htotal, hop.size, total_cons, hmeaning]
      rfl
    · rw [Nat.zero_add, htotal, ← hpos]
      exact ⟨hfits.describes, trivial⟩
    · show totalSize _ = e.unencodedOffset + n.size
      rw [total_size_append, hsize]
      rfl
    · show e.unencodedOffset + n.size ≤ e.nextIn.length
      rw [hop.size, ← hpos]
      exact hroom
  · have hsize_pos := hfits.size_pos
    have hn' := hop.size
    refine ⟨?_, ?_, ?_⟩
    · show (e.dataTail ++ xs).length ≤ e.unencodedOffset + n.size
      have hxs := hop.data_length
      have hold := hsmall.data
      rw [List.length_append]
      omega
    · show instTail.length + 6 * iout.toList.length ≤ 6 * (e.unencodedOffset + n.size)
      have hold := hsmall.inst
      omega
    · show (e.addrTail ++ bs).length ≤ 5 * (e.unencodedOffset + n.size)
      have hbs := hop.addr_length
      have hold := hsmall.addr
      rw [List.length_append]
      omega
  · show e.unencodedOffset + n.size = _
    rw [hpos, hop.size]

/-- What lies in front of the next match is added. -/
theorem Encodes.iopt_add {source : Bytes} {e : Encoder} {pos : Nat} (h : Encodes source e)
    (hlow : e.unencodedOffset ≤ pos) (hhigh : pos ≤ e.nextIn.length)
    (hlimit : e.taroff + e.nextIn.length < 2 ^ 32) :
    Encodes source (e.ioptAdd pos) ∧ (e.ioptAdd pos).nextIn = e.nextIn ∧
      (e.ioptAdd pos).src = e.src ∧ (e.ioptAdd pos).unencodedOffset = pos := by
  unfold Encoder.ioptAdd
  by_cases hgap : pos > e.unencodedOffset
  · rw [if_pos hgap]
    have hfits : e.Fits source
        { type := .add, pos := e.unencodedOffset, size := pos - e.unencodedOffset } := by
      refine ⟨.inl rfl, rfl, Nat.sub_pos_of_lt hgap, ?_, ?_⟩
      · show e.unencodedOffset + (pos - e.unencodedOffset) ≤ _
        omega
      · exact List.take_prefix _ _
    obtain ⟨hencodes, hnextIn, hsrc, hoffset⟩ := h.iopt_finish_encoding hfits hlimit
    refine ⟨hencodes, hnextIn, hsrc, hoffset.trans ?_⟩
    show e.unencodedOffset + (pos - e.unencodedOffset) = pos
    omega
  · rw [if_neg hgap]
    exact ⟨h, rfl, rfl, by omega⟩

/-- The last byte has been encoded. -/
theorem Encodes.iopt_add_finalize {source : Bytes} {e : Encoder} (h : Encodes source e)
    (hlimit : e.taroff + e.nextIn.length < 2 ^ 32) :
    ∃ hs is, instructions e.ioptAddFinalize.instTail.length ⟨e.ioptAddFinalize.instTail,
        e.ioptAddFinalize.addrTail,
        .init CodeTableDesc.rfc3284.nearModes CodeTableDesc.rfc3284.sameModes, e.taroff⟩ = some hs ∧
      withData hs e.ioptAddFinalize.dataTail = some is ∧
      build (e.segment source) e.taroff is [] = some e.nextIn ∧
      e.ioptAddFinalize.dataTail.length ≤ e.nextIn.length ∧
      e.ioptAddFinalize.instTail.length ≤ 6 * e.nextIn.length ∧
      e.ioptAddFinalize.addrTail.length ≤ 5 * e.nextIn.length ∧
      e.ioptAddFinalize.nextIn = e.nextIn ∧ e.ioptAddFinalize.src = e.src := by
  have hle : e.unencodedOffset ≤ e.nextIn.length := by
    obtain ⟨hs, -, hmeant, -⟩ := h
    exact hmeant.le
  obtain ⟨hencodes, hnextIn, hsrc, hoffset⟩ := h.iopt_add hle le_rfl hlimit
  unfold Encoder.ioptAddFinalize
  generalize e.ioptAdd e.nextIn.length = f at hencodes hnextIn hsrc hoffset ⊢
  have htaroff : e.taroff = f.taroff := taroff_congr hsrc.symm
  have hsegment : e.segment source = f.segment source := by
    unfold segment
    rw [hsrc, htaroff]
  obtain ⟨hs, hcoded, ⟨⟨is, hdata, htotal, hdescribes⟩, -, -⟩, hsmall⟩ := hencodes
  have hbuild : build (e.segment source) e.taroff is [] = some e.nextIn := by
    have hall := build_eq_take hdescribes
    rw [Nat.zero_add, htotal, hoffset, hnextIn, List.take_zero, List.take_length] at hall
    rw [hsegment, htaroff]
    exact hall
  obtain ⟨hdataLen, hinstLen, haddrLen⟩ := hsmall
  rw [hoffset] at hdataLen hinstLen haddrLen
  have hparsed : ∀ g : Encoder, g.Flushed (hs ++ f.held) → g.taroff = f.taroff →
      instructions g.instTail.length ⟨g.instTail, g.addrTail,
        .init CodeTableDesc.rfc3284.nearModes CodeTableDesc.rfc3284.sameModes, e.taroff⟩ =
          some (hs ++ f.held) := by
    intro g hflushed hsame
    have hall := (hflushed [] []).instructions rfl rfl
    unfold cursor at hall
    rw [List.append_nil, List.append_nil, hsame, ← htaroff] at hall
    exact hall
  unfold held at hdata hparsed
  cases hiout : f.iout with
  | none =>
      rw [hiout] at hdata hparsed
      have hflushed := hcoded.flushed hiout
      rw [← List.append_nil hs] at hflushed
      simp only [hiout]
      exact ⟨_, is, hparsed f hflushed rfl, hdata, hbuild, hdataLen, by omega, haddrLen,
        hnextIn, hsrc⟩
  | some p =>
      rw [hiout] at hdata hparsed hinstLen
      simp only [hiout]
      exact ⟨_, is, hparsed { f.emitSingle p p.code1 with iout := none } (hcoded.emit_single hiout)
        rfl, hdata, hbuild, hdataLen,
        (f.length_emit_single p.code1 (hcoded.held p hiout).size_lt).trans hinstLen, haddrLen,
        hnextIn, hsrc⟩

end Encoder

/-! ## The matches -/

/-- A run of bytes, or a match with the part of the source that was decided on or with the window
itself. -/
inductive Found (source nextIn : Bytes) (src : Option SourceWindow) (inst : Rinst) : Prop where
  | run (htype : inst.type = .run) (hsize : 0 < inst.size)
      (hroom : inst.pos + inst.size ≤ nextIn.length)
      (hsame : slice nextIn inst.pos inst.size = List.replicate inst.size inst.xtra)
  | source {w : SourceWindow} (htype : inst.type = .cpy 0) (hsize : 0 < inst.size)
      (hroom : inst.pos + inst.size ≤ nextIn.length) (hsrc : src = some w) (hxtra : inst.xtra ≠ 0)
      (hlow : w.srcbase ≤ inst.addr) (hhigh : inst.addr + inst.size ≤ w.srcbase + w.srclen)
      (hsame : slice source inst.addr inst.size = slice nextIn inst.pos inst.size)
  | target (htype : inst.type = .cpy 0) (hsize : 0 < inst.size)
      (hroom : inst.pos + inst.size ≤ nextIn.length) (hxtra : inst.xtra = 0)
      (hbefore : inst.addr < inst.pos)
      (hsame : ∀ k < inst.size, nextIn[inst.addr + k]? = nextIn[inst.pos + k]?)

/-- The matches do not overlap. -/
def InOrder : Nat → List Rinst → Prop
  | _, [] => True
  | pos, inst :: insts => pos ≤ inst.pos ∧ InOrder (inst.pos + inst.size) insts

/-- A small difference does not wrap around. -/
theorem usize_sub_of_small {a b : Nat} (hle : b ≤ a) (hlt : a - b < 2 ^ 32) :
    usizeSub a b = a - b := by
  unfold usizeSub
  omega

namespace Encoder

variable {source : Bytes} {e : Encoder}

/-- A match inside the target is addressed behind the source window. -/
theorem address_target {inst : Rinst} (hxtra : inst.xtra = 0)
    (hlimit : e.taroff + inst.addr < 2 ^ 32) : e.address inst = e.taroff + inst.addr := by
  have haddr : inst.addr % 2 ^ 32 = inst.addr := Nat.mod_eq_of_lt (by omega)
  unfold address
  cases hsrc : e.src with
  | none =>
      rw [taroff_none hsrc]
      exact haddr.trans (Nat.zero_add _).symm
  | some w =>
      simp only [hxtra, ne_eq, not_true_eq_false, if_false]
      rw [haddr, Nat.mod_eq_of_lt hlimit]

/-- A match that was found right can be written. -/
theorem fits_of_found {inst : Rinst} (h : Found source e.nextIn e.src inst)
    (hpos : inst.pos = e.unencodedOffset) (hlimit : e.taroff + e.nextIn.length < 2 ^ 32)
    (hsource : ∀ w, e.src = some w → w.srcbase + w.srclen ≤ source.length) :
    e.Fits source inst := by
  cases h with
  | run htype hsize hroom hsame =>
      refine ⟨.inr (.inl htype), hpos, hsize, hroom, ?_⟩
      unfold meaning
      simp only [htype]
      show List.replicate _ _ <+: _
      rw [← hsame]
      exact List.take_prefix _ _
  | @source w htype hsize hroom hsrc hxtra hlow hhigh hsame =>
      have hfits := hsource w hsrc
      have htaroff : e.taroff = w.srclen := taroff_some hsrc
      have haddress : e.address inst = inst.addr - w.srcbase := by
        unfold address
        simp only [hsrc, if_pos hxtra]
        exact usize_sub_of_small hlow (by omega)
      have hsegment : e.segment source = slice source w.srcbase w.srclen := by
        unfold segment
        rw [hsrc, htaroff]
        rfl
      have hlength : (slice source w.srcbase w.srclen).length = w.srclen := length_slice_of_le hfits
      refine ⟨.inr (.inr htype), hpos, hsize, hroom, ?_⟩
      unfold meaning
      simp only [htype]
      rw [haddress, hsegment, htaroff]
      refine ⟨hroom, ?_⟩
      rw [if_pos (by omega), hlength]
      have hcopy : ((slice source w.srcbase w.srclen).drop (inst.addr - w.srcbase)).take inst.size =
          slice e.nextIn inst.pos inst.size := by
        refine (slice_slice (by omega)).trans ?_
        rw [Nat.add_sub_cancel' hlow]
        exact hsame
      refine ⟨by omega, by omega, ?_⟩
      rw [hcopy]
      exact List.take_prefix _ _
  | target htype hsize hroom hxtra hbefore hsame =>
      refine ⟨.inr (.inr htype), hpos, hsize, hroom, ?_⟩
      unfold meaning
      simp only [htype]
      rw [address_target hxtra (by omega)]
      refine ⟨hroom, ?_⟩
      rw [if_neg (by omega), Nat.add_sub_cancel_left]
      exact ⟨hbefore, hsame⟩

/-- The matches and what lies between them. -/
theorem Encodes.foldl {insts : List Rinst} (h : Encodes source e)
    (hfound : ∀ inst ∈ insts, Found source e.nextIn e.src inst)
    (horder : InOrder e.unencodedOffset insts) (hlimit : e.taroff + e.nextIn.length < 2 ^ 32)
    (hsource : ∀ w, e.src = some w → w.srcbase + w.srclen ≤ source.length) :
    Encodes source (insts.foldl ioptAddEncoding e) ∧
      (insts.foldl ioptAddEncoding e).nextIn = e.nextIn ∧
      (insts.foldl ioptAddEncoding e).src = e.src := by
  induction insts generalizing e with
  | nil => exact ⟨h, rfl, rfl⟩
  | cons inst insts ih =>
      obtain ⟨hlow, hrest⟩ := horder
      have hinst := hfound inst List.mem_cons_self
      have hhigh : inst.pos + inst.size ≤ e.nextIn.length := by
        cases hinst <;> assumption
      obtain ⟨hadded, hnextIn, hsrc, hoffset⟩ := h.iopt_add hlow (by omega) hlimit
      have hlimit' : (e.ioptAdd inst.pos).taroff + (e.ioptAdd inst.pos).nextIn.length < 2 ^ 32 := by
        rw [taroff_congr hsrc, hnextIn]
        exact hlimit
      have hfits : (e.ioptAdd inst.pos).Fits source inst := by
        refine fits_of_found ?_ hoffset.symm hlimit' ?_
        · rw [hnextIn, hsrc]
          exact hinst
        · rw [hsrc]
          exact hsource
      obtain ⟨hencodes, hnextIn', hsrc', hoffset'⟩ := hadded.iopt_finish_encoding hfits hlimit'
      have hnextIn₂ : (e.ioptAddEncoding inst).nextIn = e.nextIn := hnextIn'.trans hnextIn
      have hsrc₂ : (e.ioptAddEncoding inst).src = e.src := hsrc'.trans hsrc
      have hoffset₂ : (e.ioptAddEncoding inst).unencodedOffset = inst.pos + inst.size := hoffset'
      obtain ⟨hall, hlast, hlast'⟩ := ih (e := e.ioptAddEncoding inst) hencodes
        (by rw [hnextIn₂, hsrc₂]; exact fun i hi => hfound i (List.mem_cons_of_mem _ hi))
        (by rw [hoffset₂]; exact hrest)
        (by rw [taroff_congr hsrc₂, hnextIn₂]; exact hlimit)
        (by rw [hsrc₂]; exact hsource)
      exact ⟨hall, hlast.trans hnextIn₂, hlast'.trans hsrc₂⟩

end Encoder

/-- The encoder has nothing yet. -/
theorem encodes_start {source nextIn : Bytes} {src : Option SourceWindow} :
    Encoder.Encodes source { nextIn, src } := by
  refine ⟨[], ⟨fun inst addr => ?_, fun p hp => (by cases hp), rfl, rfl⟩, ?_,
    ⟨le_rfl, le_rfl, le_rfl⟩⟩
  · exact ⟨_, .refl, rfl, rfl, rfl⟩
  · exact ⟨⟨[], rfl, rfl, trivial⟩, rfl, Nat.zero_le _⟩

/-- The target of a window, from its instructions and their data. -/
theorem target_of {source target : Bytes} {w : Window} {hs : List Hinst}
    {is : List (Inst UInt8)} (hlies : w.head.cpyoff + w.head.cpylen ≤ source.length)
    (hinsts : instructions w.inst.length ⟨w.inst, w.addr,
      .init CodeTableDesc.rfc3284.nearModes CodeTableDesc.rfc3284.sameModes, w.head.cpylen⟩ =
        some hs) (hdata : withData hs w.data = some is)
    (hbuild : build (slice source w.head.cpyoff w.head.cpylen) w.head.cpylen is [] = some target)
    (hends : target.length = w.head.tgtlen ∧ (w.head.indicator &&& VCD_ADLER32 ≠ 0 →
      adler32 32 1 target = Digits.ofBytes w.head.cksum)) : w.target source = some target := by
  have hguard : (guard (w.head.cpyoff + w.head.cpylen ≤ source.length) : Option Unit) = some () :=
    if_pos hlies
  unfold Window.target
  rw [hguard]
  show (instructions _ _).bind _ = _
  rw [hinsts]
  show (withData hs w.data).bind _ = _
  rw [hdata]
  show (build _ _ is []).bind _ = _
  rw [hbuild]
  exact if_pos hends

/-- The window that the encoder makes means its input, for whatever matches. -/
theorem encode_means (head : Head) {source nextIn : Bytes} {src : Option SourceWindow}
    {insts : List Rinst} (hfound : ∀ inst ∈ insts, Found source nextIn src inst)
    (horder : InOrder 0 insts)
    (hsource : ∀ w, src = some w → w.srcbase + w.srclen ≤ source.length)
    (hlimit : (src.map SourceWindow.srclen).getD 0 + nextIn.length < 2 ^ 32)
    (hcpyoff : head.cpyoff = (src.map SourceWindow.srcbase).getD 0)
    (hcpylen : head.cpylen = (src.map SourceWindow.srclen).getD 0)
    (htgtlen : head.tgtlen = nextIn.length)
    (hcksum : head.indicator &&& VCD_ADLER32 ≠ 0 →
      adler32 32 1 nextIn = Digits.ofBytes head.cksum) :
    Window.target source ⟨head, (encode nextIn src insts).dataTail,
      (encode nextIn src insts).instTail, (encode nextIn src insts).addrTail⟩ = some nextIn ∧
      (encode nextIn src insts).dataTail.length ≤ nextIn.length ∧
      (encode nextIn src insts).instTail.length ≤ 6 * nextIn.length ∧
      (encode nextIn src insts).addrTail.length ≤ 5 * nextIn.length ∧
      (encode nextIn src insts).nextIn = nextIn ∧ (encode nextIn src insts).src = src := by
  obtain ⟨hencodes, hnextIn, hsrc⟩ := encodes_start.foldl (e := { nextIn, src }) hfound horder
    hlimit hsource
  have htaroff : (insts.foldl Encoder.ioptAddEncoding { nextIn, src }).taroff =
      (src.map SourceWindow.srclen).getD 0 := Encoder.taroff_congr hsrc
  obtain ⟨hs, is, hinsts, hdata, hbuild, hlengths⟩ := hencodes.iopt_add_finalize (by
    rw [htaroff, hnextIn]
    exact hlimit)
  rw [hnextIn, hsrc] at hlengths
  unfold Encoder.segment at hbuild
  rw [hsrc, htaroff, hnextIn] at hbuild
  rw [htaroff] at hinsts
  have hlies : head.cpyoff + head.cpylen ≤ source.length := by
    rw [hcpyoff, hcpylen]
    cases hw : src with
    | none => exact Nat.zero_le _
    | some w => exact hsource w hw
  rw [← hcpyoff, ← hcpylen] at hbuild
  rw [← hcpylen] at hinsts
  exact ⟨target_of hlies hinsts hdata hbuild ⟨htgtlen.symm, hcksum⟩, hlengths⟩

end NamelessCenter.Vcdiff
