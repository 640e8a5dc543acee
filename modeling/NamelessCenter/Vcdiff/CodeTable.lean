import NamelessCenter.Lib.Bytes
import Mathlib.Tactic.IntervalCases

/-!
# The instruction code table

An entry of the code table is one instruction or a pair of them. A size of zero says that the size
follows the code. The table is built from a description, and the encoder chooses the codes of an
instruction and of a pair without looking them up. `chooseInstruction` is the version for the
default table and `chooseInstructionGeneric` the one that reads the description.
`choose_instruction_exact` says that the codes are those of the entries for the instructions, and
that a pair gets a code whenever the table has it.
-/

namespace NamelessCenter.Vcdiff

/-- The shortest copy that has a code of its own. -/
def MIN_MATCH : Nat := 4

/-- The shortest addition that has one. -/
def MIN_ADD : Nat := 1

/-- `xd3_rtype`; a copy has its mode. -/
inductive Rtype where
  | noop
  | add
  | run
  | cpy (mode : Nat)
  deriving DecidableEq, Repr

/-- `xd3_dinst`. -/
structure Dinst where
  type1 : Rtype := .noop
  size1 : Nat := 0
  type2 : Rtype := .noop
  size2 : Nat := 0
  deriving DecidableEq, Repr

/-- `xd3_hinst`. -/
structure Hinst where
  type : Rtype := .noop
  size : Nat := 0
  addr : Nat := 0
  deriving DecidableEq, Repr

/-- `xd3_rinst`. In a copy `xtra` tells whether it is from the source, in a run it is the byte. -/
structure Rinst where
  type : Rtype
  xtra : UInt8 := 0
  code1 : Nat := 0
  code2 : Nat := 0
  pos : Nat := 0
  size : Nat
  addr : Nat := 0
  deriving DecidableEq, Repr

/-- `xd3_code_table_sizes`. -/
structure CodeTableSizes where
  cpyMax : Nat := 0
  offset : Nat := 0
  mult : Nat := 0

/-- The code of a pair, an `uint8_t`; the sizes count from the least ones. -/
def CodeTableSizes.code (sizes : CodeTableSizes) (size1 size2 : Nat) : Nat :=
  (sizes.offset + sizes.mult * size1 + size2) % 256

/-- `xd3_code_table_desc`. -/
structure CodeTableDesc where
  addSizes : Nat
  nearModes : Nat
  sameModes : Nat
  cpySizes : Nat
  addcopyAddMax : Nat
  addcopyNearCpyMax : Nat
  addcopySameCpyMax : Nat
  copyaddAddMax : Nat
  copyaddNearCpyMax : Nat
  copyaddSameCpyMax : Nat
  addcopyMaxSizes : List CodeTableSizes
  copyaddMaxSizes : List CodeTableSizes

namespace CodeTableDesc

/-- The codes for an addition and a copy in this mode. -/
def addcopySizes (desc : CodeTableDesc) (mode : Nat) : CodeTableSizes :=
  desc.addcopyMaxSizes.getD mode {}

/-- The codes for a copy in this mode and an addition. -/
def copyaddSizes (desc : CodeTableDesc) (mode : Nat) : CodeTableSizes :=
  desc.copyaddMaxSizes.getD mode {}

/-- `cpy_modes`. -/
def cpyModes (desc : CodeTableDesc) : Nat := 2 + desc.nearModes + desc.sameModes

/-- `__rfc3284_code_table_desc`. -/
def rfc3284 : CodeTableDesc where
  addSizes := 17
  nearModes := 4
  sameModes := 3
  cpySizes := 15
  addcopyAddMax := 4
  addcopyNearCpyMax := 6
  addcopySameCpyMax := 4
  copyaddAddMax := 1
  copyaddNearCpyMax := 4
  copyaddSameCpyMax := 4
  addcopyMaxSizes := [⟨6, 163, 3⟩, ⟨6, 175, 3⟩, ⟨6, 187, 3⟩, ⟨6, 199, 3⟩, ⟨6, 211, 3⟩, ⟨6, 223, 3⟩,
    ⟨4, 235, 1⟩, ⟨4, 239, 1⟩, ⟨4, 243, 1⟩]
  copyaddMaxSizes := [⟨4, 247, 1⟩, ⟨4, 248, 1⟩, ⟨4, 249, 1⟩, ⟨4, 250, 1⟩, ⟨4, 251, 1⟩, ⟨4, 252, 1⟩,
    ⟨4, 253, 1⟩, ⟨4, 254, 1⟩, ⟨4, 255, 1⟩]

/-- `__alternate_code_table_desc`. -/
def alternate : CodeTableDesc where
  addSizes := 23
  nearModes := 5
  sameModes := 0
  cpySizes := 17
  addcopyAddMax := 4
  addcopyNearCpyMax := 6
  addcopySameCpyMax := 0
  copyaddAddMax := 3
  copyaddNearCpyMax := 4
  copyaddSameCpyMax := 0
  addcopyMaxSizes := [⟨6, 151, 3⟩, ⟨6, 163, 3⟩, ⟨6, 175, 3⟩, ⟨6, 187, 3⟩, ⟨6, 199, 3⟩, ⟨6, 211, 3⟩,
    ⟨6, 223, 3⟩, ⟨0, 0, 0⟩, ⟨0, 0, 0⟩]
  copyaddMaxSizes := [⟨4, 235, 1⟩, ⟨4, 238, 1⟩, ⟨4, 241, 1⟩, ⟨4, 244, 1⟩, ⟨4, 247, 1⟩, ⟨4, 250, 1⟩,
    ⟨4, 253, 1⟩, ⟨0, 0, 0⟩, ⟨0, 0, 0⟩]

end CodeTableDesc

/-- The integers from `lo` to `hi`, both included. -/
def sizes (lo hi : Nat) : List Nat := List.range' lo (hi + 1 - lo)

/-- `xd3_build_code_table`. -/
def buildCodeTable (desc : CodeTableDesc) : List Dinst :=
  let modes := List.range desc.cpyModes
  [{ type1 := .run }, { type1 := .add }] ++
  (sizes 1 desc.addSizes).map (fun size1 => { type1 := .add, size1 }) ++
  modes.flatMap (fun mode =>
    { type1 := .cpy mode } ::
      (List.range' MIN_MATCH desc.cpySizes).map fun size1 => { type1 := .cpy mode, size1 }) ++
  modes.flatMap (fun mode =>
    (sizes 1 desc.addcopyAddMax).flatMap fun size1 =>
      let max := if mode < 2 + desc.nearModes then desc.addcopyNearCpyMax
        else desc.addcopySameCpyMax
      (sizes MIN_MATCH max).map fun size2 =>
        { type1 := .add, size1, type2 := .cpy mode, size2 }) ++
  modes.flatMap fun mode =>
    let max := if mode < 2 + desc.nearModes then desc.copyaddNearCpyMax else desc.copyaddSameCpyMax
    (sizes MIN_MATCH max).flatMap fun size1 =>
      (sizes 1 desc.copyaddAddMax).map fun size2 =>
        { type1 := .cpy mode, size1, type2 := .add, size2 }

/-- `xd3_rfc3284_code_table`. -/
def rfc3284CodeTable : List Dinst := buildCodeTable .rfc3284

/-- `xd3_alternate_code_table`. -/
def alternateCodeTable : List Dinst := buildCodeTable .alternate

/-- `xd3_choose_instruction` with `GENERIC_ENCODE_TABLES`: the previous instruction and the
instruction with their codes. -/
def chooseInstructionGeneric (desc : CodeTableDesc) (prev : Option Rinst) (inst : Rinst) :
    Option Rinst × Rinst :=
  match inst.type with
  | .noop => (prev, inst)
  | .run => (prev, { inst with code1 := 0 })
  | .add =>
      if inst.size > desc.addSizes then (prev, { inst with code1 := 1 })
      else
        let prev := match prev with
          | none => none
          | some prev =>
              match prev.type with
              | .cpy mode =>
                  let sizes := desc.copyaddSizes mode
                  if inst.size ≤ desc.copyaddAddMax ∧ prev.size ≤ sizes.cpyMax then
                    some { prev with
                      code2 :=
                        sizes.code (prev.size + 256 - MIN_MATCH) (inst.size + 256 - MIN_ADD) }
                  else some prev
              | _ => some prev
        (prev, { inst with code1 := 1 + inst.size })
  | .cpy mode =>
      let code1 := 2 + desc.addSizes + (1 + desc.cpySizes) * mode
      if inst.size < MIN_MATCH + desc.cpySizes ∧ inst.size ≥ MIN_MATCH then
        let prev := match prev with
          | none => none
          | some prev =>
              let sizes := desc.addcopySizes mode
              if prev.type = .add ∧ prev.size ≤ desc.addcopyAddMax ∧ inst.size ≤ sizes.cpyMax then
                some { prev with
                  code2 := sizes.code (prev.size + 256 - MIN_ADD) (inst.size - MIN_MATCH) }
              else some prev
        (prev, { inst with code1 := code1 + inst.size + 1 - MIN_MATCH })
      else (prev, { inst with code1 })

/-- `xd3_choose_instruction` for the default table. -/
def chooseInstruction (prev : Option Rinst) (inst : Rinst) : Option Rinst × Rinst :=
  match inst.type with
  | .noop => (prev, inst)
  | .run => (prev, { inst with code1 := 0 })
  | .add =>
      if inst.size ≤ 17 then
        let prev := match prev with
          | none => none
          | some prev =>
              match prev.type with
              | .cpy mode =>
                  if inst.size = 1 ∧ prev.size = 4 then some { prev with code2 := 247 + mode }
                  else some prev
              | _ => some prev
        (prev, { inst with code1 := 1 + inst.size })
      else (prev, { inst with code1 := 1 })
  | .cpy mode =>
      let code1 := 19 + 16 * mode
      if inst.size ≤ 18 ∧ inst.size ≥ 4 then
        let prev := match prev with
          | none => none
          | some prev =>
              if prev.type = .add ∧ prev.size ≤ 4 then
                if inst.size ≤ 6 ∧ mode ≤ 5 then
                  some { prev with
                    code2 := 163 + mode * 12 + 3 * (prev.size - 1) + (inst.size - 4) }
                else if inst.size = 4 ∧ mode ≥ 6 then
                  some { prev with code2 := 235 + (mode - 6) * 4 + (prev.size - 1) }
                else some prev
              else some prev
        (prev, { inst with code1 := code1 + inst.size - 3 })
      else (prev, { inst with code1 })

/-! ## The codes are those of the table -/

/-- The entry for a pair of instructions. -/
def pair (prev inst : Rinst) : Dinst := ⟨prev.type, prev.size, inst.type, inst.size⟩

/-- The entry for one instruction with its size. -/
def single (inst : Rinst) : Dinst := { type1 := inst.type, size1 := inst.size }

/-- The instructions and pairs for which the choice has a code of their own. -/
def CodeTableDesc.provides (desc : CodeTableDesc) : Dinst → Bool
  | ⟨.run, size1, .noop, _⟩ => size1 = 0
  | ⟨.add, size1, .noop, _⟩ => size1 ≤ desc.addSizes
  | ⟨.cpy _, size1, .noop, _⟩ =>
      size1 < MIN_MATCH + desc.cpySizes ∧ (size1 = 0 ∨ size1 ≥ MIN_MATCH)
  | ⟨.cpy mode, size1, .add, size2⟩ =>
      size2 ≤ desc.addSizes ∧ size1 ≥ MIN_MATCH ∧ size2 ≤ desc.copyaddAddMax ∧
        size1 ≤ (desc.copyaddSizes mode).cpyMax
  | ⟨.add, size1, .cpy mode, size2⟩ =>
      (size2 < MIN_MATCH + desc.cpySizes ∧ size2 ≥ MIN_MATCH) ∧ size1 ≤ desc.addcopyAddMax ∧
        size2 ≤ (desc.addcopySizes mode).cpyMax
  | _ => false

/-- The table of the description has the entry at the code. -/
def CodeTableDesc.HasAt (desc : CodeTableDesc) (code : Nat) (d : Dinst) : Prop :=
  (buildCodeTable desc)[code]? = some d

instance (desc : CodeTableDesc) (code : Nat) (d : Dinst) : Decidable (desc.HasAt code d) :=
  inferInstanceAs (Decidable ((buildCodeTable desc)[code]? = some d))

/-- The codes of a description are those of its table, and the table has no others. -/
structure CodeTableDesc.Consistent (desc : CodeTableDesc) : Prop where
  length : (buildCodeTable desc).length = 256
  run : desc.HasAt 0 { type1 := .run }
  large_add : desc.HasAt 1 { type1 := .add }
  add : ∀ size < desc.addSizes + 1, 0 < size →
    desc.HasAt (1 + size) { type1 := .add, size1 := size }
  large_cpy : ∀ mode < desc.cpyModes,
    desc.HasAt (2 + desc.addSizes + (1 + desc.cpySizes) * mode) { type1 := .cpy mode }
  cpy : ∀ mode < desc.cpyModes, ∀ size < MIN_MATCH + desc.cpySizes, size ≥ MIN_MATCH →
    desc.HasAt (2 + desc.addSizes + (1 + desc.cpySizes) * mode + size + 1 - MIN_MATCH)
      { type1 := .cpy mode, size1 := size }
  copyadd : ∀ mode < desc.cpyModes, ∀ size1 < (desc.copyaddSizes mode).cpyMax + 1,
    size1 ≥ MIN_MATCH → ∀ size2 < desc.copyaddAddMax + 1, 0 < size2 →
      desc.HasAt ((desc.copyaddSizes mode).code (size1 + 256 - MIN_MATCH) (size2 + 256 - MIN_ADD))
        ⟨.cpy mode, size1, .add, size2⟩
  addcopy : ∀ mode < desc.cpyModes, ∀ size1 < desc.addcopyAddMax + 1, 0 < size1 →
    ∀ size2 < (desc.addcopySizes mode).cpyMax + 1, size2 ≥ MIN_MATCH →
      desc.HasAt ((desc.addcopySizes mode).code (size1 + 256 - MIN_ADD) (size2 - MIN_MATCH))
        ⟨.add, size1, .cpy mode, size2⟩
  only : ∀ d ∈ buildCodeTable desc, desc.provides d

/-- The codes of the standard table lie one behind the other. -/
theorem CodeTableDesc.rfc3284_consistent : CodeTableDesc.rfc3284.Consistent where
  length := by decide +kernel
  run := by decide +kernel
  large_add := by decide +kernel
  add := by decide +kernel
  large_cpy := by decide +kernel
  cpy := by decide +kernel
  copyadd := by decide +kernel
  addcopy := by decide +kernel
  only := by decide +kernel

/-- So do those of the alternate one. -/
theorem CodeTableDesc.alternate_consistent : CodeTableDesc.alternate.Consistent where
  length := by decide +kernel
  run := by decide +kernel
  large_add := by decide +kernel
  add := by decide +kernel
  large_cpy := by decide +kernel
  cpy := by decide +kernel
  copyadd := by decide +kernel
  addcopy := by decide +kernel
  only := by decide +kernel

/-- An instruction of the encoder. -/
structure Rinst.Encodable (desc : CodeTableDesc) (inst : Rinst) : Prop where
  type_ne : inst.type ≠ .noop
  size_pos : 0 < inst.size
  mode_lt : ∀ mode, inst.type = .cpy mode → mode < desc.cpyModes

/-- What the choice does: `code1` is the entry for the instruction, with its size if there is such
an entry, and the previous instruction gets the code of the pair if there is one. -/
structure Chosen (desc : CodeTableDesc) (prev : Option Rinst) (inst : Rinst)
    (prev' : Option Rinst) (inst' : Rinst) : Prop where
  inst_eq : inst' = { inst with code1 := inst'.code1 }
  code1 : ∃ size1, desc.HasAt inst'.code1 { type1 := inst.type, size1 } ∧
    (size1 = 0 ∨ size1 = inst.size) ∧ (single inst ∈ buildCodeTable desc → size1 = inst.size)
  prev_none : prev = none → prev' = none
  code2 : ∀ p, prev = some p → ∃ code2, prev' = some { p with code2 } ∧
    (pair p inst ∈ buildCodeTable desc → desc.HasAt code2 (pair p inst)) ∧
    (pair p inst ∉ buildCodeTable desc → code2 = p.code2)

namespace CodeTableDesc

variable {desc : CodeTableDesc}

/-- What has a code is in the table. -/
theorem HasAt.mem {code : Nat} {d : Dinst} (h : desc.HasAt code d) : d ∈ buildCodeTable desc :=
  List.mem_of_getElem? h

/-- The code of an instruction by itself. -/
theorem Consistent.chosen_none (h : desc.Consistent) {inst : Rinst} (hinst : inst.Encodable desc) :
    Chosen desc none inst none (chooseInstructionGeneric desc none inst).2 := by
  obtain ⟨type, xtra, code1, code2, pos, size, addr⟩ := inst
  have hsize : 0 < size := hinst.size_pos
  cases type with
  | noop => exact absurd rfl hinst.type_ne
  | run =>
      refine ⟨rfl, ⟨0, h.run, .inl rfl, fun hmem => ?_⟩, fun _ => rfl, fun p hp => by cases hp⟩
      have hprovides := h.only _ hmem
      simp only [single, provides, decide_eq_true_eq] at hprovides
      exact hprovides.symm
  | add =>
      unfold chooseInstructionGeneric
      by_cases hlarge : size > desc.addSizes
      · simp only [if_pos hlarge]
        refine ⟨rfl, ⟨0, h.large_add, .inl rfl, fun hmem => ?_⟩, fun _ => rfl,
          fun p hp => by cases hp⟩
        have hprovides := h.only _ hmem
        simp only [single, provides, decide_eq_true_eq] at hprovides
        omega
      · simp only [if_neg hlarge]
        exact ⟨rfl, ⟨size, h.add size (by omega) hsize, .inr rfl, fun _ => rfl⟩, fun _ => rfl,
          fun p hp => by cases hp⟩
  | cpy mode =>
      have hmode := hinst.mode_lt mode rfl
      unfold chooseInstructionGeneric
      by_cases hshort : size < MIN_MATCH + desc.cpySizes ∧ size ≥ MIN_MATCH
      · simp only [if_pos hshort]
        exact ⟨rfl, ⟨size, h.cpy mode hmode size hshort.1 hshort.2, .inr rfl, fun _ => rfl⟩,
          fun _ => rfl, fun p hp => by cases hp⟩
      · simp only [if_neg hshort]
        refine ⟨rfl, ⟨0, h.large_cpy mode hmode, .inl rfl, fun hmem => ?_⟩, fun _ => rfl,
          fun p hp => by cases hp⟩
        have hprovides := h.only _ hmem
        simp only [single, provides, decide_eq_true_eq] at hprovides
        omega

/-- The instruction's own code does not depend on the previous instruction. -/
theorem choose_instruction_generic_snd (prev : Option Rinst) (inst : Rinst) :
    (chooseInstructionGeneric desc prev inst).2 = (chooseInstructionGeneric desc none inst).2 := by
  unfold chooseInstructionGeneric
  cases inst.type with
  | noop => rfl
  | run => rfl
  | add =>
      by_cases hlarge : inst.size > desc.addSizes
      · simp only [if_pos hlarge]
      · simp only [if_neg hlarge]
  | cpy mode =>
      by_cases hshort : inst.size < MIN_MATCH + desc.cpySizes ∧ inst.size ≥ MIN_MATCH
      · simp only [if_pos hshort]
      · simp only [if_neg hshort]

/-- What the choice does to the previous instruction. -/
theorem Consistent.code2 (h : desc.Consistent) {p inst : Rinst} (hinst : inst.Encodable desc)
    (hp : p.Encodable desc) (hmin : ∀ mode, p.type = .cpy mode → p.size ≥ MIN_MATCH) :
    ∃ code2, (chooseInstructionGeneric desc (some p) inst).1 = some { p with code2 } ∧
      (pair p inst ∈ buildCodeTable desc → desc.HasAt code2 (pair p inst)) ∧
      (pair p inst ∉ buildCodeTable desc → code2 = p.code2) := by
  obtain ⟨ptype, pxtra, pcode1, pcode2, ppos, psize, paddr⟩ := p
  obtain ⟨type, xtra, code1, code2, pos, size, addr⟩ := inst
  have hsize : 0 < size := hinst.size_pos
  have hpsize : 0 < psize := hp.size_pos
  have hnot : ∀ {d : Dinst}, desc.provides d = false → d ∉ buildCodeTable desc := by
    intro d hd hmem
    exact absurd ((h.only d hmem).symm.trans hd) (by decide)
  unfold chooseInstructionGeneric pair
  cases type with
  | noop => exact absurd rfl hinst.type_ne
  | run =>
      have habsent := hnot (d := ⟨ptype, psize, .run, size⟩) (by cases ptype <;> rfl)
      exact ⟨pcode2, rfl, fun hmem => absurd hmem habsent, fun _ => rfl⟩
  | add =>
      cases ptype with
      | noop => exact absurd rfl hp.type_ne
      | add | run =>
          refine ⟨pcode2, ?_, fun hmem => absurd hmem (hnot rfl), fun _ => rfl⟩
          by_cases hlarge : size > desc.addSizes
          · simp only [if_pos hlarge]
          · simp only [if_neg hlarge]
      | cpy mode =>
          have hpmin : psize ≥ MIN_MATCH := hmin mode rfl
          by_cases hpair : size ≤ desc.addSizes ∧ size ≤ desc.copyaddAddMax ∧
              psize ≤ (desc.copyaddSizes mode).cpyMax
          · have hentry := h.copyadd mode (hp.mode_lt mode rfl) psize (by omega) hpmin size
              (by omega) hsize
            have hsmall : ¬ size > desc.addSizes := by omega
            refine ⟨_, ?_, fun _ => hentry, fun habsent => absurd hentry.mem habsent⟩
            simp only [if_neg hsmall, if_pos hpair.2]
          · have habsent := hnot (d := ⟨.cpy mode, psize, .add, size⟩) (by
              simp only [provides, decide_eq_false_iff_not]
              exact fun hall => hpair ⟨hall.1, hall.2.2⟩)
            refine ⟨pcode2, ?_, fun hmem => absurd hmem habsent, fun _ => rfl⟩
            by_cases hlarge : size > desc.addSizes
            · simp only [if_pos hlarge]
            · have hother :
                  ¬ (size ≤ desc.copyaddAddMax ∧ psize ≤ (desc.copyaddSizes mode).cpyMax) :=
                fun hboth => hpair ⟨by omega, hboth⟩
              simp only [if_neg hlarge, if_neg hother]
  | cpy mode =>
      by_cases hpair : ptype = .add ∧ (size < MIN_MATCH + desc.cpySizes ∧ size ≥ MIN_MATCH) ∧
          psize ≤ desc.addcopyAddMax ∧ size ≤ (desc.addcopySizes mode).cpyMax
      · obtain ⟨rfl, hshort, hboth⟩ := hpair
        have hentry := h.addcopy mode (hinst.mode_lt mode rfl) psize (by omega) hpsize size
          (by omega) hshort.2
        refine ⟨_, ?_, fun _ => hentry, fun habsent => absurd hentry.mem habsent⟩
        simp only [if_pos hshort, true_and, if_pos hboth]
      · have habsent := hnot (d := ⟨ptype, psize, .cpy mode, size⟩) (by
          cases ptype with
          | noop | run | cpy mode' => rfl
          | add =>
              simp only [provides, decide_eq_false_iff_not]
              exact fun hall => hpair ⟨rfl, hall⟩)
        refine ⟨pcode2, ?_, fun hmem => absurd hmem habsent, fun _ => rfl⟩
        by_cases hshort : size < MIN_MATCH + desc.cpySizes ∧ size ≥ MIN_MATCH
        · have hother : ¬ (ptype = .add ∧ psize ≤ desc.addcopyAddMax ∧
              size ≤ (desc.addcopySizes mode).cpyMax) :=
            fun hboth => hpair ⟨hboth.1, hshort, hboth.2⟩
          simp only [if_pos hshort, if_neg hother]
        · simp only [if_neg hshort]

/-- The choice by a consistent description. -/
theorem Consistent.chosen (h : desc.Consistent) {prev : Option Rinst} {inst : Rinst}
    (hinst : inst.Encodable desc) (hprev : ∀ p ∈ prev, p.Encodable desc)
    (hmin : ∀ p ∈ prev, ∀ mode, p.type = .cpy mode → p.size ≥ MIN_MATCH) :
    Chosen desc prev inst (chooseInstructionGeneric desc prev inst).1
      (chooseInstructionGeneric desc prev inst).2 := by
  have hone := h.chosen_none hinst
  rw [choose_instruction_generic_snd]
  refine ⟨hone.inst_eq, hone.code1, fun hnone => ?_, fun p hp => ?_⟩
  · subst hnone
    unfold chooseInstructionGeneric
    cases inst.type with
    | noop | run => rfl
    | add | cpy mode => simp only; split_ifs <;> rfl
  · subst hp
    exact h.code2 hinst (hprev p rfl) (hmin p rfl)

end CodeTableDesc

/-! ## The version for the default table -/

/-- The standard table's codes for a copy and an addition. -/
theorem copyadd_sizes_rfc3284 {mode : Nat} (hmode : mode < 9) :
    CodeTableDesc.rfc3284.copyaddSizes mode = ⟨4, 247 + mode, 1⟩ := by
  interval_cases mode <;> rfl

/-- Its codes for an addition and a copy. -/
theorem addcopy_sizes_rfc3284 {mode : Nat} (hmode : mode < 9) :
    CodeTableDesc.rfc3284.addcopySizes mode =
      if mode ≤ 5 then ⟨6, 163 + mode * 12, 3⟩ else ⟨4, 235 + (mode - 6) * 4, 1⟩ := by
  interval_cases mode <;> rfl

/-- Unless the previous instruction is a copy that is too short for the table, the two versions
agree. -/
theorem choose_instruction_eq {prev : Option Rinst} {inst : Rinst} (hinst : inst.Encodable .rfc3284)
    (hprev : ∀ p ∈ prev, p.Encodable .rfc3284)
    (hmin : ∀ p ∈ prev, ∀ mode, p.type = .cpy mode → p.size ≥ MIN_MATCH) :
    chooseInstruction prev inst = chooseInstructionGeneric .rfc3284 prev inst := by
  have hsize := hinst.size_pos
  have haddSizes : CodeTableDesc.rfc3284.addSizes = 17 := rfl
  have hcpySizes : CodeTableDesc.rfc3284.cpySizes = 15 := rfl
  have haddMax : CodeTableDesc.rfc3284.copyaddAddMax = 1 := rfl
  have haddcopyMax : CodeTableDesc.rfc3284.addcopyAddMax = 4 := rfl
  unfold MIN_MATCH at hmin
  unfold chooseInstruction chooseInstructionGeneric MIN_MATCH MIN_ADD
  cases htype : inst.type with
  | noop | run => rfl
  | add =>
      simp only [haddSizes, haddMax]
      by_cases hlarge : inst.size ≤ 17
      · simp only [if_pos hlarge, if_neg (not_lt.2 hlarge)]
        cases prev with
        | none => rfl
        | some p =>
            cases hp : p.type with
            | noop | add | run => simp only [hp]
            | cpy mode =>
                have hmode : mode < 9 := (hprev p rfl).mode_lt mode hp
                have hpmin := hmin p rfl mode hp
                simp only [hp, copyadd_sizes_rfc3284 hmode]
                by_cases hpair : inst.size = 1 ∧ p.size = 4
                · have hpair' : inst.size ≤ 1 ∧ p.size ≤ 4 := ⟨hpair.1.le, hpair.2.le⟩
                  have hcode : (247 + mode + 1 * (p.size + 256 - 4) + (inst.size + 256 - 1)) % 256 =
                      247 + mode := by omega
                  simp only [if_pos hpair, if_pos hpair', CodeTableSizes.code, hcode]
                · have hpair' : ¬ (inst.size ≤ 1 ∧ p.size ≤ 4) := by omega
                  simp only [if_neg hpair, if_neg hpair']
      · simp only [if_neg hlarge, if_pos (not_le.1 hlarge)]
  | cpy mode =>
      have hmode : mode < 9 := hinst.mode_lt mode htype
      simp only [haddSizes, hcpySizes, haddcopyMax]
      by_cases hshort : inst.size ≤ 18 ∧ inst.size ≥ 4
      · have hshort' : inst.size < 4 + 15 ∧ inst.size ≥ 4 := ⟨by omega, hshort.2⟩
        have hcode1 : 19 + 16 * mode + inst.size - 3 =
            2 + 17 + (1 + 15) * mode + inst.size + 1 - 4 := by omega
        simp only [if_pos hshort, if_pos hshort', hcode1]
        cases prev with
        | none => rfl
        | some p =>
            have hpsize := (hprev p rfl).size_pos
            by_cases hadd : p.type = .add ∧ p.size ≤ 4
            · simp only [if_pos hadd]
              by_cases hnear : mode ≤ 5
              · have hsizes := addcopy_sizes_rfc3284 hmode
                rw [if_pos hnear] at hsizes
                by_cases hsmall : inst.size ≤ 6
                · have hcode : (163 + mode * 12 + 3 * (p.size + 256 - 1) + (inst.size - 4)) % 256 =
                      163 + mode * 12 + 3 * (p.size - 1) + (inst.size - 4) := by omega
                  simp only [hsizes, if_pos (And.intro hsmall hnear),
                    if_pos (And.intro hadd.1 (And.intro hadd.2 hsmall)), CodeTableSizes.code, hcode]
                · have hnot : ¬ (inst.size ≤ 6 ∧ mode ≤ 5) := fun hboth => hsmall hboth.1
                  have hnot' : ¬ (inst.size = 4 ∧ mode ≥ 6) := by omega
                  have hother : ¬ (p.type = .add ∧ p.size ≤ 4 ∧ inst.size ≤ 6) :=
                    fun hall => hsmall hall.2.2
                  simp only [hsizes, if_neg hnot, if_neg hnot', if_neg hother]
              · have hsizes := addcopy_sizes_rfc3284 hmode
                rw [if_neg hnear] at hsizes
                have hnot : ¬ (inst.size ≤ 6 ∧ mode ≤ 5) := fun hboth => hnear hboth.2
                by_cases hfour : inst.size ≤ 4
                · have hsame : inst.size = 4 ∧ mode ≥ 6 := by omega
                  have hcode : (235 + (mode - 6) * 4 + 1 * (p.size + 256 - 1) + (inst.size - 4)) %
                      256 = 235 + (mode - 6) * 4 + (p.size - 1) := by omega
                  simp only [hsizes, if_neg hnot, if_pos hsame,
                    if_pos (And.intro hadd.1 (And.intro hadd.2 hfour)), CodeTableSizes.code, hcode]
                · have hsame : ¬ (inst.size = 4 ∧ mode ≥ 6) := by omega
                  have hother : ¬ (p.type = .add ∧ p.size ≤ 4 ∧ inst.size ≤ 4) :=
                    fun hall => hfour hall.2.2
                  simp only [hsizes, if_neg hnot, if_neg hsame, if_neg hother]
            · have hother : ¬ (p.type = .add ∧ p.size ≤ 4 ∧
                  inst.size ≤ (CodeTableDesc.rfc3284.addcopySizes mode).cpyMax) :=
                fun hall => hadd ⟨hall.1, hall.2.1⟩
              simp only [if_neg hadd, if_neg hother]
      · have hshort' : ¬ (inst.size < 4 + 15 ∧ inst.size ≥ 4) := by omega
        simp only [if_neg hshort, if_neg hshort']

/-- The choice for the default table, also where the previous instruction is a short copy. -/
theorem choose_instruction_chosen {prev : Option Rinst} {inst : Rinst}
    (hinst : inst.Encodable .rfc3284) (hprev : ∀ p ∈ prev, p.Encodable .rfc3284) :
    Chosen .rfc3284 prev inst (chooseInstruction prev inst).1 (chooseInstruction prev inst).2 := by
  have hconsistent := CodeTableDesc.rfc3284_consistent
  by_cases hmin : ∀ p ∈ prev, ∀ mode, p.type = .cpy mode → p.size ≥ MIN_MATCH
  · rw [choose_instruction_eq hinst hprev hmin]
    exact hconsistent.chosen hinst hprev hmin
  · push Not at hmin
    obtain ⟨p, rfl, mode, hp, hshort⟩ := hmin
    have hone := hconsistent.chosen_none hinst
    -- A copy of less than four bytes never shares its code.
    have hsame : chooseInstruction (some p) inst =
        (some p, (chooseInstructionGeneric .rfc3284 none inst).2) := by
      rw [← choose_instruction_eq hinst (by simp) (by simp)]
      unfold MIN_MATCH at hshort
      unfold chooseInstruction
      cases inst.type with
      | noop | run => rfl
      | add =>
          have hnot : ¬ (inst.size = 1 ∧ p.size = 4) := by omega
          simp only [hp, if_neg hnot]
          split_ifs <;> rfl
      | cpy mode' =>
          have hnot : ¬ (p.type = .add ∧ p.size ≤ 4) := by simp [hp]
          simp only [if_neg hnot]
          split_ifs <;> rfl
    rw [hsame]
    refine ⟨hone.inst_eq, hone.code1, fun hnone => absurd hnone (by simp), fun q hq => ?_⟩
    cases hq
    refine ⟨p.code2, rfl, fun hmem => ?_, fun _ => rfl⟩
    have hprovides := hconsistent.only _ hmem
    obtain ⟨ptype, pxtra, pcode1, pcode2, ppos, psize, paddr⟩ := p
    obtain ⟨type, xtra, code1, code2, pos, size, addr⟩ := inst
    cases hp
    cases type with
    | noop => exact absurd rfl hinst.type_ne
    | run | cpy mode' => cases hprovides
    | add =>
        simp only [pair, CodeTableDesc.provides, decide_eq_true_eq] at hprovides
        exact absurd hprovides.2.1 (not_le.2 hshort)

/-- For the default table, for the alternate one and for the version without a description: every
instruction gets the code of its own entry, with its size in the entry wherever the table has it,
and a pair gets the code of its entry exactly if the table has one. Where no copy is too short for
the table, the version without a description agrees with the other one. -/
theorem choose_instruction_exact {prev : Option Rinst} {inst : Rinst} :
    (∀ desc, desc = .rfc3284 ∨ desc = .alternate → inst.Encodable desc →
      (∀ p ∈ prev, p.Encodable desc) →
      (∀ p ∈ prev, ∀ mode, p.type = .cpy mode → p.size ≥ MIN_MATCH) →
      Chosen desc prev inst (chooseInstructionGeneric desc prev inst).1
        (chooseInstructionGeneric desc prev inst).2 ∧
      (desc = .rfc3284 → chooseInstruction prev inst = chooseInstructionGeneric desc prev inst)) ∧
    (inst.Encodable .rfc3284 → (∀ p ∈ prev, p.Encodable .rfc3284) →
      Chosen .rfc3284 prev inst (chooseInstruction prev inst).1
        (chooseInstruction prev inst).2) := by
  refine ⟨fun desc hdesc hinst hprev hmin => ⟨?_, fun hdefault => ?_⟩, choose_instruction_chosen⟩
  · rcases hdesc with rfl | rfl
    · exact CodeTableDesc.rfc3284_consistent.chosen hinst hprev hmin
    · exact CodeTableDesc.alternate_consistent.chosen hinst hprev hmin
  · subst hdefault
    exact choose_instruction_eq hinst hprev hmin

/-- An addition of one byte after a copy of four. -/
theorem choose_instruction_exact_pair :
    Chosen .rfc3284 (some { type := .cpy 2, size := 4 }) { type := .add, size := 1 }
      (some { type := .cpy 2, size := 4, code2 := 249 }) { type := .add, size := 1, code1 := 2 } :=
  (@choose_instruction_exact (some { type := .cpy 2, size := 4 }) { type := .add, size := 1 }).2
    ⟨by decide, by decide, fun mode h => by cases h⟩ fun p hp => by
      cases hp
      exact ⟨by decide, by decide, fun mode h => by cases h; decide⟩

end NamelessCenter.Vcdiff
