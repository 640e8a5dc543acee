import NamelessCenter.Vcdiff.Integers

/-!
# The address cache

The address of a copy is written in the mode that gives the smallest integer: the address itself,
its distance from the current position, its distance from one of the last few addresses, or one
byte if the address is in the table of addresses by their remainder. Encoder and decoder keep the
same cache. `addresses_round_trip` says that the decoder gets every address of a run back, and
`address_shortest` that no other encoding of an address is shorter than the one that is chosen.
-/

namespace NamelessCenter.Vcdiff

/-- Subtraction of a `usize_t`. -/
def usizeSub (a b : Nat) : Nat := (a + (2 ^ 32 - b % 2 ^ 32)) % 2 ^ 32

/-- The mode for an address that is written as it is. -/
def VCD_SELF : Nat := 0

/-- The mode for the distance from the current position. -/
def VCD_HERE : Nat := 1

/-- `xd3_addr_cache`. -/
structure AddrCache where
  sNear : Nat
  sSame : Nat
  nextSlot : Nat
  nearArray : List Nat
  sameArray : List Nat
  near_length : nearArray.length = sNear
  same_length : sameArray.length = sSame * 256
  deriving DecidableEq

namespace AddrCache

/-- `xd3_alloc_cache` followed by `xd3_init_cache`. -/
def init (sNear sSame : Nat) : AddrCache where
  sNear := sNear
  sSame := sSame
  nextSlot := 0
  nearArray := List.replicate sNear 0
  sameArray := List.replicate (sSame * 256) 0
  near_length := List.length_replicate
  same_length := List.length_replicate

/-- `xd3_update_cache`. -/
def update (acache : AddrCache) (addr : Nat) : AddrCache where
  sNear := acache.sNear
  sSame := acache.sSame
  nextSlot := if 0 < acache.sNear then (acache.nextSlot + 1) % acache.sNear else acache.nextSlot
  nearArray := acache.nearArray.set acache.nextSlot addr
  sameArray := acache.sameArray.set (addr % (acache.sSame * 256)) addr
  near_length := by rw [List.length_set, acache.near_length]
  same_length := by rw [List.length_set, acache.same_length]

end AddrCache

/-- `SMALLEST_INT`: the integer takes one byte. -/
def smallestInt (x : Nat) : Bool := x &&& 0xffffff80 = 0

/-- The loop over the near cache from slot `i` on, with the best integer and mode so far. The flag
says that the loop was left for the label `good`. -/
def nearLoop (addr : Nat) : List Nat → Nat → Nat → Nat → Bool × Nat × Nat
  | [], _, bestd, bestm => (false, bestd, bestm)
  | near :: nears, i, bestd, bestm =>
      if near ≤ addr then
        let d := addr - near
        if d < bestd then
          if smallestInt d then (true, d, i + 2) else nearLoop addr nears (i + 1) d (i + 2)
        else nearLoop addr nears (i + 1) bestd bestm
      else nearLoop addr nears (i + 1) bestd bestm

/-- The search of `xd3_encode_address` for the smallest integer. -/
def bestAddress (acache : AddrCache) (addr here : Nat) : Bool × Nat × Nat :=
  if smallestInt addr then (true, addr, VCD_SELF)
  else
    let d := usizeSub here addr
    if d < addr then
      if smallestInt d then (true, d, VCD_HERE) else nearLoop addr acache.nearArray 0 d VCD_HERE
    else nearLoop addr acache.nearArray 0 addr VCD_SELF

/-- `xd3_encode_address`: the bytes for the address section, the mode and the cache afterwards. -/
def encodeAddress (acache : AddrCache) (addr here : Nat) : Bytes × Nat × AddrCache :=
  let (good, bestd, bestm) := bestAddress acache addr here
  let d := addr % (acache.sSame * 256)
  if good = false ∧ 0 < acache.sSame ∧ acache.sameArray.getD d 0 = addr then
    ([UInt8.ofNat (d % 256)], acache.sNear + 2 + d / 256, acache.update addr)
  else (emitSize bestd, bestm, acache.update addr)

/-- `xd3_decode_address`: the address with the rest of the section and the cache afterwards. -/
def decodeAddress (acache : AddrCache) (here mode : Nat) (inp : Bytes) :
    Except String (Nat × Bytes × AddrCache) :=
  let sameStart := 2 + acache.sNear
  if mode < sameStart then
    match readSize inp with
    | .error message => .error message
    | .ok (val, inp) =>
        let addr :=
          if mode = VCD_SELF then val
          else if mode = VCD_HERE then usizeSub here val
          else (val + acache.nearArray.getD (mode - 2) 0) % 2 ^ 32
        .ok (addr, inp, acache.update addr)
  else
    match inp with
    | [] => .error "address underflow"
    | b :: inp =>
        let addr := acache.sameArray.getD ((mode - sameStart) * 256 + b.toNat) 0
        .ok (addr, inp, acache.update addr)

/-! ## One address -/

/-- A difference that does not wrap around. -/
theorem usize_sub_of_le {a b : Nat} (hle : b ≤ a) (ha : a < 2 ^ 32) : usizeSub a b = a - b := by
  unfold usizeSub
  omega

/-- The integers that are written in one byte. -/
theorem smallest_int_iff {x : Nat} (hx : x < 2 ^ 32) : smallestInt x ↔ x < 128 := by
  have hmask : x &&& 0xffffff80 = (x / 2 ^ 7) * 2 ^ 7 := by
    have hwidth : x / 2 ^ 7 < 2 ^ 25 := by omega
    have hconst : (0xffffff80 : Nat) = (2 ^ 25 - 1) <<< 7 := rfl
    rw [hconst, ← Nat.shiftRight_eq_div_pow, ← Nat.shiftLeft_eq]
    refine Nat.eq_of_testBit_eq fun i => ?_
    rw [Nat.testBit_and, Nat.testBit_shiftLeft, Nat.testBit_shiftLeft, Nat.testBit_shiftRight,
      Nat.testBit_two_pow_sub_one]
    by_cases hi : 7 ≤ i
    · rw [Nat.add_sub_cancel' hi]
      by_cases hhigh : i < 32
      · simp [hi, show i - 7 < 25 by omega]
      · have hbit : x.testBit i = false :=
          Nat.testBit_lt_two_pow (hx.trans_le (Nat.pow_le_pow_right Nat.two_pos (by omega)))
        simp [hbit]
    · simp [hi]
  unfold smallestInt
  rw [decide_eq_true_iff, hmask]
  omega

/-- In mode `mode`, the integer `d` stands for `addr` at position `here`. -/
inductive Codes (acache : AddrCache) (here addr : Nat) : Nat → Nat → Prop where
  | self : Codes acache here addr addr VCD_SELF
  | here : Codes acache here addr (here - addr) VCD_HERE
  | near {i near d : Nat} (hslot : acache.nearArray[i]? = some near) (hsum : near + d = addr) :
      Codes acache here addr d (i + 2)

/-- The loop takes one of the integers, and if it is not left early the smallest of them. -/
theorem near_loop_spec {addr : Nat} (haddr : addr < 2 ^ 32) (nears : List Nat)
    (i bestd bestm : Nat) :
    ∃ good d m, nearLoop addr nears i bestd bestm = (good, d, m) ∧
      ((d, m) = (bestd, bestm) ∧ good = false ∨
        ∃ k near, nears[k]? = some near ∧ near + d = addr ∧ m = i + k + 2) ∧
      (good = true → d < 128) ∧ d ≤ bestd ∧
      (good = false → ∀ near ∈ nears, near ≤ addr → d ≤ addr - near) := by
  induction nears generalizing i bestd bestm with
  | nil => exact ⟨false, bestd, bestm, rfl, .inl ⟨rfl, rfl⟩, nofun, le_rfl, fun _ _ h => by cases h⟩
  | cons near nears ih =>
      rw [nearLoop]
      by_cases hnear : near ≤ addr ∧ addr - near < bestd
      · rw [if_pos hnear.1]
        simp only [if_pos hnear.2]
        by_cases hsmall : smallestInt (addr - near)
        · refine ⟨true, addr - near, i + 2, if_pos hsmall, .inr ⟨0, near, rfl, ?_, rfl⟩,
            fun _ => ?_, hnear.2.le, nofun⟩
          · omega
          · exact (smallest_int_iff (by omega)).1 hsmall
        · rw [if_neg hsmall]
          obtain ⟨good, d, m, hloop, hcodes, hgood, hle, hleast⟩ :=
            ih (i + 1) (addr - near) (i + 2)
          refine ⟨good, d, m, hloop, .inr ?_, hgood, hle.trans hnear.2.le, ?_⟩
          · rcases hcodes with ⟨hbest, -⟩ | ⟨k, near', hslot, hsum, hm⟩
            · obtain ⟨rfl, rfl⟩ := Prod.mk.inj hbest
              exact ⟨0, near, rfl, by omega, rfl⟩
            · exact ⟨k + 1, near', hslot, hsum, by omega⟩
          · intro hnot near' hmem hle'
            rcases List.mem_cons.1 hmem with rfl | hmem
            · exact hle
            · exact hleast hnot near' hmem hle'
      · have hskip : (if near ≤ addr then
            if addr - near < bestd then
              if smallestInt (addr - near) then (true, addr - near, i + 2)
              else nearLoop addr nears (i + 1) (addr - near) (i + 2)
            else nearLoop addr nears (i + 1) bestd bestm
          else nearLoop addr nears (i + 1) bestd bestm) =
            nearLoop addr nears (i + 1) bestd bestm := by
          by_cases hle : near ≤ addr
          · rw [if_pos hle, if_neg fun hlt => hnear ⟨hle, hlt⟩]
          · rw [if_neg hle]
        simp only [hskip]
        obtain ⟨good, d, m, hloop, hcodes, hgood, hle, hleast⟩ :=
          ih (i + 1) bestd bestm
        refine ⟨good, d, m, hloop, ?_, hgood, hle, ?_⟩
        · rcases hcodes with hbest | ⟨k, near', hslot, hsum, hm⟩
          · exact .inl hbest
          · exact .inr ⟨k + 1, near', hslot, hsum, by omega⟩
        · intro hnot near' hmem hle'
          rcases List.mem_cons.1 hmem with rfl | hmem
          · have hbound := fun hlt => hnear ⟨hle', hlt⟩
            omega
          · exact hleast hnot near' hmem hle'

/-- The integer that is chosen stands for the address. If it is not below 128, it is the smallest
that does. -/
theorem best_address_spec (acache : AddrCache) {addr here : Nat} (haddr : addr < here)
    (hhere : here < 2 ^ 32) :
    ∃ good d m, bestAddress acache addr here = (good, d, m) ∧ Codes acache here addr d m ∧
      (good = true → d < 128) ∧
      (good = false → ∀ d' m', Codes acache here addr d' m' → d ≤ d') := by
  have haddr' : addr < 2 ^ 32 := haddr.trans hhere
  unfold bestAddress
  rw [usize_sub_of_le haddr.le hhere]
  by_cases hself : smallestInt addr
  · exact ⟨true, addr, VCD_SELF, if_pos hself, .self, fun _ => (smallest_int_iff haddr').1 hself,
      fun hnot => absurd hnot (by decide)⟩
  · simp only [if_neg hself]
    -- Either of the two integers that need no cache may be the one that the loop starts with.
    have hloop : ∀ start m₀, Codes acache here addr start m₀ → start ≤ addr →
        start ≤ here - addr →
        ∃ good d m, nearLoop addr acache.nearArray 0 start m₀ = (good, d, m) ∧
          Codes acache here addr d m ∧ (good = true → d < 128) ∧
          (good = false → ∀ d' m', Codes acache here addr d' m' → d ≤ d') := by
      intro start m₀ hstart hleSelf hleHere
      obtain ⟨good, d, m, hloop, hcodes, hgood, hle, hleast⟩ :=
        near_loop_spec haddr' acache.nearArray 0 start m₀
      refine ⟨good, d, m, hloop, ?_, hgood, fun hnot d' m' hd' => ?_⟩
      · rcases hcodes with ⟨hsame, -⟩ | ⟨k, near, hslot, hsum, rfl⟩
        · obtain ⟨rfl, rfl⟩ := Prod.mk.inj hsame
          exact hstart
        · rw [Nat.zero_add]
          exact .near hslot hsum
      · cases hd' with
        | self => exact hle.trans hleSelf
        | here => exact hle.trans hleHere
        | @near i near d' hslot hsum =>
            have hbound := hleast hnot near (List.mem_of_getElem? hslot) (by omega)
            omega
    by_cases hcloser : here - addr < addr
    · rw [if_pos hcloser]
      by_cases hsmall : smallestInt (here - addr)
      · exact ⟨true, here - addr, VCD_HERE, if_pos hsmall, .here,
          fun _ => (smallest_int_iff (by omega)).1 hsmall, fun hnot => absurd hnot (by decide)⟩
      · rw [if_neg hsmall]
        exact hloop _ _ .here hcloser.le le_rfl
    · rw [if_neg hcloser]
      exact hloop _ _ .self le_rfl (by omega)

/-- What is written is not above the current position. -/
theorem Codes.le_here {acache : AddrCache} {here addr d m : Nat} (h : Codes acache here addr d m)
    (haddr : addr < here) : d ≤ here := by
  cases h with
  | self => omega
  | here => omega
  | near hslot hsum => omega

/-- An element that is there is the one that is got. -/
theorem get_d_of_get_elem? {xs : List Nat} {i x : Nat} (h : xs[i]? = some x) : xs.getD i 0 = x := by
  rw [List.getD_eq_getElem?_getD, h, Option.getD_some]

/-- Reading an integer that stands for the address. -/
theorem Codes.decode_address {acache : AddrCache} {here addr d m : Nat}
    (h : Codes acache here addr d m) (haddr : addr < here) (hhere : here < 2 ^ 32) (rest : Bytes) :
    m < 2 + acache.sNear ∧
      decodeAddress acache here m (emitSize d ++ rest) = .ok (addr, rest, acache.update addr) := by
  have hread : readSize (emitSize d ++ rest) = .ok (d, rest) :=
    read_integer_emit_integer (by decide) (by decide) ((h.le_here haddr).trans_lt hhere) rest
  unfold Vcdiff.decodeAddress
  cases h with
  | self =>
      have hmode : VCD_SELF < 2 + acache.sNear := Nat.lt_add_right _ (by decide)
      refine ⟨hmode, ?_⟩
      simp only [if_pos hmode, hread, if_true]
  | here =>
      have hmode : VCD_HERE < 2 + acache.sNear := Nat.lt_add_right _ (by decide)
      have hne : ¬ VCD_HERE = VCD_SELF := by decide
      have hval : usizeSub here (here - addr) = addr := by
        rw [usize_sub_of_le (Nat.sub_le here addr) hhere]
        omega
      refine ⟨hmode, ?_⟩
      simp only [if_pos hmode, hread, if_neg hne, if_true, hval]
  | @near i near d hslot hsum =>
      have hi : i < acache.sNear := by
        rw [← acache.near_length]
        exact (List.getElem?_eq_some_iff.1 hslot).1
      have hmode : i + 2 < 2 + acache.sNear := by omega
      have hself : ¬ i + 2 = VCD_SELF := by unfold VCD_SELF; omega
      have hhere' : ¬ i + 2 = VCD_HERE := by unfold VCD_HERE; omega
      have hval : (d + near) % 2 ^ 32 = addr := by
        rw [Nat.mod_eq_of_lt (by omega)]
        omega
      refine ⟨hmode, ?_⟩
      simp only [if_pos hmode, hread, if_neg hself, if_neg hhere', Nat.add_sub_cancel,
        get_d_of_get_elem? hslot, hval]

/-- The decoder reads the address that was encoded, and leaves the same cache. -/
theorem decode_address_encode_address (acache : AddrCache) {addr here : Nat} (haddr : addr < here)
    (hhere : here < 2 ^ 32) (rest : Bytes) :
    ∃ bs mode, encodeAddress acache addr here = (bs, mode, acache.update addr) ∧
      mode < 2 + acache.sNear + acache.sSame ∧
      decodeAddress acache here mode (bs ++ rest) = .ok (addr, rest, acache.update addr) := by
  obtain ⟨good, d, m, hbest, hcodes, -, -⟩ := best_address_spec acache haddr hhere
  unfold encodeAddress
  simp only [hbest]
  by_cases hsame : good = false ∧ 0 < acache.sSame ∧
      acache.sameArray.getD (addr % (acache.sSame * 256)) 0 = addr
  · rw [if_pos hsame]
    obtain ⟨-, hpos, hslot⟩ := hsame
    have hremainder : addr % (acache.sSame * 256) < acache.sSame * 256 := Nat.mod_lt _ (by omega)
    refine ⟨_, _, rfl, by omega, ?_⟩
    have hmode : ¬ acache.sNear + 2 + addr % (acache.sSame * 256) / 256 < 2 + acache.sNear := by
      omega
    have hbyte : (UInt8.ofNat (addr % (acache.sSame * 256) % 256)).toNat =
        addr % (acache.sSame * 256) % 256 := by
      rw [UInt8.toNat_ofNat', Nat.mod_mod]
    have hindex :
        (acache.sNear + 2 + addr % (acache.sSame * 256) / 256 - (2 + acache.sNear)) * 256 +
          addr % (acache.sSame * 256) % 256 = addr % (acache.sSame * 256) := by omega
    unfold decodeAddress
    simp only [if_neg hmode, List.singleton_append, hbyte, hindex, hslot]
  · rw [if_neg hsame]
    obtain ⟨hmode, hdecode⟩ := hcodes.decode_address haddr hhere rest
    exact ⟨_, _, rfl, by omega, hdecode⟩

/-! ## The addresses of a window -/

/-- The modes and the address section for a list of addresses, each with its position. -/
def encodeAddresses : AddrCache → List (Nat × Nat) → List Nat × Bytes × AddrCache
  | acache, [] => ([], [], acache)
  | acache, (addr, here) :: copies =>
      let (bs, mode, acache) := encodeAddress acache addr here
      let (modes, section_, acache) := encodeAddresses acache copies
      (mode :: modes, bs ++ section_, acache)

/-- The addresses for a list of positions, each with its mode, and the rest of the section. -/
def decodeAddresses :
    AddrCache → List (Nat × Nat) → Bytes → Except String (List Nat × Bytes × AddrCache)
  | acache, [], inp => .ok ([], inp, acache)
  | acache, (here, mode) :: copies, inp =>
      match decodeAddress acache here mode inp with
      | .error message => .error message
      | .ok (addr, inp, acache) =>
          match decodeAddresses acache copies inp with
          | .error message => .error message
          | .ok (addrs, inp, acache) => .ok (addr :: addrs, inp, acache)

/-- The cache after the addresses of a list. -/
def AddrCache.after (acache : AddrCache) (copies : List (Nat × Nat)) : AddrCache :=
  copies.foldl (fun acache copy => acache.update copy.1) acache

/-- The first copy updates the caches first. -/
theorem AddrCache.after_cons (acache : AddrCache) (copy : Nat × Nat) (copies : List (Nat × Nat)) :
    acache.after (copy :: copies) = (acache.update copy.1).after copies := rfl

/-- The decoder gets all addresses of a window back, with the modes that the encoder chose and
whatever follows the section. The modes are those of the code table, and the two caches agree. -/
theorem addresses_round_trip (acache : AddrCache) (copies : List (Nat × Nat))
    (hcopies : ∀ copy ∈ copies, copy.1 < copy.2 ∧ copy.2 < 2 ^ 32) :
    ∃ modes section_, encodeAddresses acache copies = (modes, section_, acache.after copies) ∧
      modes.length = copies.length ∧ (∀ mode ∈ modes, mode < 2 + acache.sNear + acache.sSame) ∧
      ∀ rest, decodeAddresses acache ((copies.map Prod.snd).zip modes) (section_ ++ rest) =
        .ok (copies.map Prod.fst, rest, acache.after copies) := by
  induction copies generalizing acache with
  | nil => exact ⟨[], [], rfl, rfl, fun mode h => absurd h List.not_mem_nil, fun rest => rfl⟩
  | cons copy copies ih =>
      obtain ⟨addr, here⟩ := copy
      obtain ⟨haddr, hhere⟩ := hcopies (addr, here) List.mem_cons_self
      obtain ⟨modes, section_, hencode, hlength, hmodes, hdecode⟩ := ih (acache.update addr)
        fun copy h => hcopies copy (List.mem_cons_of_mem _ h)
      obtain ⟨bs, mode, hone, hmode, -⟩ := decode_address_encode_address acache haddr hhere []
      refine ⟨mode :: modes, bs ++ section_, ?_, congrArg (· + 1) hlength, ?_, fun rest => ?_⟩
      · rw [encodeAddresses, hone]
        simp only [hencode]
        rfl
      · intro m hm
        rcases List.mem_cons.1 hm with rfl | hm
        · exact hmode
        · exact hmodes m hm
      · obtain ⟨bs', mode', hone', -, hfirst⟩ :=
          decode_address_encode_address acache haddr hhere (section_ ++ rest)
        obtain ⟨rfl, rfl, -⟩ : bs = bs' ∧ mode = mode' ∧ True := by
          rw [hone, Prod.mk.injEq, Prod.mk.injEq] at hone'
          exact ⟨hone'.1, hone'.2.1, trivial⟩
        rw [List.map_cons, List.zip_cons_cons, decodeAddresses, List.append_assoc, hfirst]
        simp only [hdecode rest]
        rfl

/-- Two copies; the second address is coded by its distance from the first. -/
theorem addresses_round_trip_pair :
    ∃ modes section_, encodeAddresses (AddrCache.init 4 3) [(1000, 2000), (1010, 3000)] =
        (modes, section_, (AddrCache.init 4 3).after [(1000, 2000), (1010, 3000)]) ∧
      modes.length = 2 := by
  obtain ⟨modes, section_, hencode, hlength, -⟩ :=
    addresses_round_trip (AddrCache.init 4 3) [(1000, 2000), (1010, 3000)] (by decide)
  exact ⟨modes, section_, hencode, hlength⟩

/-! ## The choice of the mode -/

/-- What holds of the cache at position `here`: a slot has an address in front of the position, and
the table has an address only where its remainder says. -/
structure AddrCache.At (acache : AddrCache) (here : Nat) : Prop where
  near_le : ∀ near ∈ acache.nearArray, near ≤ here
  same_mod : ∀ i addr, acache.sameArray[i]? = some addr → addr ≠ 0 →
    i = addr % (acache.sSame * 256)

/-- New caches hold no address above any position. -/
theorem AddrCache.init_at (sNear sSame here : Nat) : (init sNear sSame).At here where
  near_le near h := by
    rw [List.eq_of_mem_replicate h]
    exact Nat.zero_le here
  same_mod i addr h hne := by
    exact absurd (List.eq_of_mem_replicate (List.mem_of_getElem? h)) hne

/-- A copy from below the position keeps that so. -/
theorem AddrCache.At.update {acache : AddrCache} {here addr : Nat} (h : acache.At here)
    (haddr : addr < here) : (acache.update addr).At here where
  near_le near hmem := by
    rcases List.mem_or_eq_of_mem_set hmem with hold | rfl
    · exact h.near_le near hold
    · exact haddr.le
  same_mod i x hslot hne := by
    rw [AddrCache.update, List.getElem?_set] at hslot
    by_cases hi : addr % (acache.sSame * 256) = i
    · rw [if_pos hi] at hslot
      by_cases hlt : addr % (acache.sSame * 256) < acache.sameArray.length
      · rw [if_pos hlt, Option.some.injEq] at hslot
        rw [← hslot]
        exact hi.symm
      · rw [if_neg hlt] at hslot
        cases hslot
    · rw [if_neg hi] at hslot
      exact h.same_mod i x hslot hne

/-- So do several. -/
theorem AddrCache.At.after {acache : AddrCache} {here : Nat} (h : acache.At here)
    {copies : List (Nat × Nat)} (hcopies : ∀ copy ∈ copies, copy.1 < here) :
    (acache.after copies).At here := by
  induction copies generalizing acache with
  | nil => exact h
  | cons copy copies ih =>
      rw [AddrCache.after_cons]
      exact ih (h.update (hcopies copy List.mem_cons_self))
        fun copy hmem => hcopies copy (List.mem_cons_of_mem _ hmem)

/-- Copies do not change the sizes of the caches. -/
theorem AddrCache.after_sizes (acache : AddrCache) (copies : List (Nat × Nat)) :
    (acache.after copies).sNear = acache.sNear ∧ (acache.after copies).sSame = acache.sSame := by
  induction copies generalizing acache with
  | nil => exact ⟨rfl, rfl⟩
  | cons copy copies ih => exact ih (acache.update copy.1)

/-- A number below 128 takes one byte. -/
theorem length_emit_size_of_lt {d : Nat} (hd : d < 128) : (emitSize d).length = 1 := by
  rw [emitSize, length_emit_integer (hd.trans (by decide)), sizeofUint32]
  exact if_pos hd

/-- The encoder takes one byte where the address is in the table, and else the shortest of the
integers. -/
theorem length_encode_address_le {acache : AddrCache} {addr here n : Nat} (haddr : addr < here)
    (hhere : here < 2 ^ 32) (hpos : 0 < n)
    (hn : (∃ d m, Codes acache here addr d m ∧ ∀ e ≤ d, (emitSize e).length ≤ n) ∨
      0 < acache.sSame ∧ acache.sameArray.getD (addr % (acache.sSame * 256)) 0 = addr) :
    (encodeAddress acache addr here).1.length ≤ n := by
  obtain ⟨good, d, m, hbest, hcodes, hgood, hleast⟩ := best_address_spec acache haddr hhere
  unfold encodeAddress
  simp only [hbest]
  by_cases hsame : good = false ∧ 0 < acache.sSame ∧
      acache.sameArray.getD (addr % (acache.sSame * 256)) 0 = addr
  · rw [if_pos hsame]
    exact hpos
  · rw [if_neg hsame]
    cases good with
    | true =>
        rw [length_emit_size_of_lt (hgood rfl)]
        exact hpos
    | false =>
        rcases hn with ⟨d', m', hcodes', hshort⟩ | htable
        · exact hshort d (hleast rfl d' m' hcodes')
        · exact absurd ⟨rfl, htable⟩ hsame

/-- No other mode or integer that the decoder would take for the address is shorter than what the
encoder writes, in every cache that addresses in front of the position can lead to. -/
theorem address_shortest {sNear sSame addr here mode : Nat} {copies : List (Nat × Nat)}
    {cs rest : Bytes} {next : AddrCache} (hcopies : ∀ copy ∈ copies, copy.1 < here)
    (haddr : addr < here) (hhere : here < 2 ^ 32) (hmode : mode < 2 + sNear + sSame)
    (hdecode : decodeAddress ((AddrCache.init sNear sSame).after copies) here mode (cs ++ rest) =
      .ok (addr, rest, next)) :
    (encodeAddress ((AddrCache.init sNear sSame).after copies) addr here).1.length ≤ cs.length := by
  have hcache := (AddrCache.init_at sNear sSame here).after hcopies
  have hnearSize : ((AddrCache.init sNear sSame).after copies).sNear = sNear :=
    ((AddrCache.init sNear sSame).after_sizes copies).1
  have hsameSize : ((AddrCache.init sNear sSame).after copies).sSame = sSame :=
    ((AddrCache.init sNear sSame).after_sizes copies).2
  generalize (AddrCache.init sNear sSame).after copies = acache at *
  unfold decodeAddress at hdecode
  by_cases hinteger : mode < 2 + acache.sNear
  · simp only [if_pos hinteger] at hdecode
    cases hread : readSize (cs ++ rest) with
    | error message =>
        rw [hread] at hdecode
        cases hdecode
    | ok read =>
        obtain ⟨val, inp⟩ := read
        simp only [hread, Except.ok.injEq, Prod.mk.injEq] at hdecode
        obtain ⟨hval, rfl, -⟩ := hdecode
        obtain ⟨ds, hds, hsplit, hvalue, hlt⟩ :=
          (read_integer_eq_ok_iff (by decide) (Nat.two_pow_pos 32)).1 hread
        obtain rfl : cs = ds := List.append_cancel_right hsplit
        have hshort : ∀ e ≤ val, (emitSize e).length ≤ cs.length := by
          intro e he
          obtain ⟨-, hvalueE, hshortest⟩ := emit_integer_spec ((he.trans_lt hlt).trans (by decide))
          exact hshortest.length_le hds.ne_nil (hvalueE.trans_le (he.trans hvalue.le))
        have hcodes : ∃ d m, Codes acache here addr d m ∧ d ≤ val := by
          by_cases hself : mode = VCD_SELF
          · rw [if_pos hself] at hval
            exact ⟨addr, VCD_SELF, .self, hval.ge⟩
          · rw [if_neg hself] at hval
            by_cases hh : mode = VCD_HERE
            · rw [if_pos hh, usizeSub] at hval
              exact ⟨here - addr, VCD_HERE, .here, by omega⟩
            · rw [if_neg hh] at hval
              have hslot : mode - 2 < acache.nearArray.length := by
                unfold VCD_SELF at hself
                unfold VCD_HERE at hh
                rw [acache.near_length]
                omega
              rw [List.getD_eq_getElem _ _ hslot] at hval
              have hnear := hcache.near_le _ (List.getElem_mem hslot)
              by_cases hwrap : val + acache.nearArray[mode - 2] < 2 ^ 32
              · rw [Nat.mod_eq_of_lt hwrap] at hval
                exact ⟨val, mode - 2 + 2, .near (List.getElem?_eq_getElem hslot) (by omega), le_rfl⟩
              -- A sum that wraps needs a distance that is greater than the address itself.
              · exact ⟨addr, VCD_SELF, .self, by omega⟩
        obtain ⟨d, m, hcodes, hle⟩ := hcodes
        refine length_encode_address_le haddr hhere (List.length_pos_iff.2 hds.ne_nil) (.inl ?_)
        exact ⟨d, m, hcodes, fun e he => hshort e (he.trans hle)⟩
  · simp only [if_neg hinteger] at hdecode
    cases cs with
    | nil =>
        cases rest with
        | nil => cases hdecode
        | cons b rest =>
            simp only [List.nil_append, Except.ok.injEq, Prod.mk.injEq] at hdecode
            exact absurd hdecode.2.1 (List.cons_ne_self b rest).symm
    | cons b cs =>
        simp only [List.cons_append, Except.ok.injEq, Prod.mk.injEq] at hdecode
        obtain ⟨hslot, -, -⟩ := hdecode
        refine length_encode_address_le haddr hhere (Nat.succ_pos _) ?_
        by_cases hzero : addr = 0
        · refine .inl ⟨addr, VCD_SELF, .self, fun e he => ?_⟩
          rw [length_emit_size_of_lt (by omega)]
          exact Nat.succ_pos _
        · refine .inr ⟨by omega, ?_⟩
          have hget :
              acache.sameArray[(mode - (2 + acache.sNear)) * 256 + b.toNat]? = some addr := by
            rw [List.getD_eq_getElem?_getD] at hslot
            cases hopt : acache.sameArray[(mode - (2 + acache.sNear)) * 256 + b.toNat]? with
            | none =>
                rw [hopt] at hslot
                exact absurd hslot.symm hzero
            | some x =>
                rw [hopt] at hslot
                rw [← hslot]
                rfl
          rw [← hcache.same_mod _ _ hget hzero]
          exact hslot

/-- An address that the near cache codes in one byte, where it takes two by itself. -/
theorem address_shortest_near :
    (encodeAddress ((AddrCache.init 4 3).after [(1000, 2000)]) 1010 3000).1.length ≤
      ([10] : Bytes).length := by
  have hdecode : decodeAddress ((AddrCache.init 4 3).after [(1000, 2000)]) 3000 2 ([10] ++ []) =
      .ok (1010, [], ((AddrCache.init 4 3).after [(1000, 2000)]).update 1010) := rfl
  exact address_shortest (by decide) (by decide) (by decide) (by decide) hdecode

end NamelessCenter.Vcdiff
