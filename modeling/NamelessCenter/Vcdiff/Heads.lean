import NamelessCenter.Vcdiff.Emission

/-!
# The decoder in front of the output of a window

A complete header, the head of a window and its sections are each read in one go: the cases of the
decoder's `switch` fall through to the next stop. The fields of the stream are then those of the
format.
-/

namespace NamelessCenter.Vcdiff

open Bytes Resumable Format

/-! ## Fields -/

section Fields

variable {s : Stream} {rest : Bytes}

/-- A byte that is there is read. -/
theorem decode_byte_of {x : Nat} (h : byte s.availIn = some (x, rest)) :
    decodeByte s = .ok x { s with availIn := rest } := by
  unfold byte at h
  unfold decodeByte
  cases hinp : s.availIn with
  | nil =>
      rw [hinp] at h
      cases h
  | cons b bs =>
      rw [hinp] at h
      cases h
      rfl

/-- A size that is there is read. -/
theorem decode_size_of {x : Nat} (h : number 32 s.availIn = some (x, rest))
    (hpart : s.dec32part = 0) : decodeSize s = .ok x { s with availIn := rest } := by
  unfold decodeSize
  rw [hpart, number_eq_some.1 h]

/-- An offset that is there is read. -/
theorem decode_offset_of {x : Nat} (h : number 64 s.availIn = some (x, rest))
    (hpart : s.dec64part = 0) : decodeOffset s = .ok x { s with availIn := rest } := by
  unfold decodeOffset
  rw [hpart, number_eq_some.1 h]

/-- Bytes that are there are read. -/
theorem decode_bytes_of {buf : Stream → Bytes} {store : Bytes → Stream → Stream} {n : Nat}
    {xs : Bytes} (h : bytes n s.availIn = some (xs, rest)) (hbuf : buf s = []) :
    decodeBytes buf store n s = .ok () { store xs s with availIn := rest } := by
  obtain ⟨hinp, rfl⟩ := bytes_eq_some.1 h
  have hmin : min xs.length s.availIn.length = xs.length := by
    rw [hinp, List.length_append]
    omega
  have htake : s.availIn.take xs.length = xs := by rw [hinp, List.take_left]
  have hdrop : s.availIn.drop xs.length = rest := by rw [hinp, List.drop_left]
  unfold decodeBytes
  simp only [hbuf, List.length_nil, Nat.sub_zero, hmin, Nat.zero_add, lt_irrefl, if_false,
    List.nil_append, htake, hdrop]

variable {α : Type} {k : Decode α} {expr : Prop} [Decidable expr]
  {store : Nat → Stream → Stream} {nstate : DecState}

/-- A field that is there. -/
theorem field_case_of {decode : Decode Nat} {x : Nat} {s' : Stream} (hexpr : expr)
    (h : decode s = .ok x s') :
    (fieldCase decode expr store nstate >>= fun _ => k) s =
      k { store x s' with decState := nstate } := by
  unfold fieldCase
  rw [only_if_of hexpr]
  simp only [bind_assoc]
  rw [bind_ok h]
  rfl

/-- A field that is not. -/
theorem field_case_of_not {decode : Decode Nat} (hexpr : ¬ expr) :
    (fieldCase decode expr store nstate >>= fun _ => k) s = k { s with decState := nstate } := by
  unfold fieldCase
  rw [only_if_of_not hexpr]
  rfl

end Fields

/-! ## The head of a window -/

section Head

variable {s : Stream} {rest : Bytes} {n : Nat}

/-- The length of the address section is read. -/
theorem case_addrlen_of (h : number 32 s.availIn = some (n, rest)) (hpart : s.dec32part = 0) :
    caseAddrlen s = caseCksum { s with
      availIn := rest, addrSect := { s.addrSect with size := n }, decState := .cksum } :=
  field_case_of trivial (decode_size_of h hpart)

/-- The length of the instruction section is read. -/
theorem case_instlen_of (h : number 32 s.availIn = some (n, rest)) (hpart : s.dec32part = 0) :
    caseInstlen s = caseAddrlen { s with
      availIn := rest, instSect := { s.instSect with size := n }, decState := .addrlen } :=
  field_case_of trivial (decode_size_of h hpart)

/-- The length of the data section is read. -/
theorem case_datalen_of (h : number 32 s.availIn = some (n, rest)) (hpart : s.dec32part = 0) :
    caseDatalen s = caseInstlen { s with
      availIn := rest, dataSect := { s.dataSect with size := n }, decState := .instlen } :=
  field_case_of trivial (decode_size_of h hpart)

/-- Sections without compression are taken. -/
theorem case_delind_of (h : byte s.availIn = some (0, rest)) :
    caseDelind s = caseDatalen { s with
      availIn := rest, decDelInd := 0, decState := .datalen } := by
  refine (field_case_of trivial (decode_byte_of h)).trans ?_
  rw [get_bind]
  exact (fail_if_bind fun hbad => hbad (Nat.zero_and _)).trans (fail_if_bind fun hbad => hbad rfl)

/-- The length of the target is read. -/
theorem case_tgtlen_of (h : number 32 s.availIn = some (n, rest)) (hpart : s.dec32part = 0)
    (hfits : s.decCpylen + n < 2 ^ 32) (hhard : n ≤ XD3_HARDMAXWINSIZE) :
    caseTgtlen s = caseDelind { s with
      availIn := rest, decTgtlen := n, decMaxpos := s.decCpylen + n, decState := .delind } := by
  refine (field_case_of trivial (decode_size_of h hpart)).trans ?_
  rw [get_bind]
  refine (fail_if_bind ?_).trans ((fail_if_bind (Nat.not_lt_of_le hhard)).trans rfl)
  show ¬ 2 ^ 32 - 1 - s.decCpylen < n
  omega

/-- The length of the window is read. -/
theorem case_enclen_of (h : number 32 s.availIn = some (n, rest)) (hpart : s.dec32part = 0) :
    caseEnclen s = caseTgtlen { s with availIn := rest, decEnclen := n, decState := .tgtlen } :=
  field_case_of trivial (decode_size_of h hpart)

/-- The decoder's test for a segment, when the window does not refer to the target file. -/
theorem src_or_tgt_iff {x : Nat} (h : x &&& VCD_TARGET = 0) :
    srcOrTgt x ↔ x &&& VCD_SOURCE ≠ 0 := by
  have hsplit : x &&& 3 = (x &&& VCD_SOURCE) ||| (x &&& VCD_TARGET) :=
    Nat.and_or_distrib_left x 1 2
  have hle : x &&& VCD_SOURCE ≤ 1 := Nat.and_le_right
  rw [h, Nat.or_zero] at hsplit
  unfold srcOrTgt VCD_TARGET
  rw [hsplit]
  unfold VCD_SOURCE at hle ⊢
  omega

/-- A segment that does not reach beyond the end of the offsets. -/
theorem cpyoff_checks (htarget : s.decWinInd &&& VCD_TARGET = 0)
    (hfits : s.decCpyoff + s.decCpylen < 2 ^ 64) :
    (failIf (2 ^ 64 - 1 - s.decCpyoff < s.decCpylen) .invalidInput
        "decoder copy window overflows a file offset" >>= fun _ =>
      failIf (s.decWinInd &&& VCD_TARGET ≠ 0 ∧ s.decCpyoff + s.decCpylen > s.decWinstart)
        .invalidInput "VCD_TARGET window out of bounds" >>= fun _ => caseEnclen) s =
      caseEnclen s := by
  refine (fail_if_bind ?_).trans (fail_if_bind fun hbad => hbad.1 htarget)
  omega

/-- The offset of the source segment is read. -/
theorem case_cpyoff_of (hsource : s.decWinInd &&& VCD_SOURCE ≠ 0)
    (htarget : s.decWinInd &&& VCD_TARGET = 0) (h : number 64 s.availIn = some (n, rest))
    (hfits : n + s.decCpylen < 2 ^ 64) (hpart : s.dec64part = 0) :
    caseCpyoff s = caseEnclen { s with availIn := rest, decCpyoff := n, decState := .enclen } := by
  unfold caseCpyoff
  rw [get_bind]
  refine (field_case_of ((src_or_tgt_iff htarget).2 hsource) (decode_offset_of h hpart)).trans ?_
  rw [get_bind]
  let t : Stream := { s with availIn := rest, decCpyoff := n, decState := .enclen }
  exact cpyoff_checks (s := t) htarget hfits

/-- Without a segment, none is. -/
theorem case_cpyoff_of_not (hsource : ¬ s.decWinInd &&& VCD_SOURCE ≠ 0)
    (htarget : s.decWinInd &&& VCD_TARGET = 0) (hfits : s.decCpyoff + s.decCpylen < 2 ^ 64) :
    caseCpyoff s = caseEnclen { s with decState := .enclen } := by
  unfold caseCpyoff
  rw [get_bind]
  refine (field_case_of_not fun h => hsource ((src_or_tgt_iff htarget).1 h)).trans ?_
  rw [get_bind]
  let t : Stream := { s with decState := .enclen }
  exact cpyoff_checks (s := t) htarget hfits

/-- The segment of a window. -/
theorem case_cpylen_of {cpylen cpyoff : Nat}
    (h : Format.segment s.decWinInd s.availIn = some ((cpylen, cpyoff), rest))
    (htarget : s.decWinInd &&& VCD_TARGET = 0) (hcpylen : s.decCpylen = 0)
    (hcpyoff : s.decCpyoff = 0) (hfits : cpyoff + cpylen < 2 ^ 64) (hpart32 : s.dec32part = 0)
    (hpart64 : s.dec64part = 0) :
    caseCpylen s = caseEnclen { s with
      availIn := rest
      decCpylen := cpylen
      decCpyoff := cpyoff
      decPosition := cpylen
      decState := .enclen } := by
  unfold caseCpylen
  rw [get_bind]
  unfold Format.segment at h
  by_cases hsource : s.decWinInd &&& VCD_SOURCE ≠ 0
  · rw [if_pos hsource] at h
    obtain ⟨_, mid, hlen, h⟩ := bind_eq_some.1 h
    obtain ⟨_, _, hoff, h⟩ := bind_eq_some.1 h
    cases pure_eq_some.1 h
    refine (field_case_of ((src_or_tgt_iff htarget).2 hsource)
      (decode_size_of hlen hpart32)).trans ?_
    rw [modify_bind]
    let t : Stream := { s with
      availIn := mid, decCpylen := cpylen, decPosition := cpylen, decState := .cpyoff }
    exact case_cpyoff_of (s := t) hsource htarget hoff hfits hpart64
  · rw [if_neg hsource] at h
    cases pure_eq_some.1 h
    refine (field_case_of_not fun h => hsource ((src_or_tgt_iff htarget).1 h)).trans ?_
    rw [modify_bind]
    let t : Stream := { s with decPosition := s.decCpylen, decState := .cpyoff }
    refine (case_cpyoff_of_not (s := t) hsource htarget ?_).trans ?_
    · show s.decCpyoff + s.decCpylen < 2 ^ 64
      omega
    · obtain ⟨⟩ := s
      cases hcpylen
      cases hcpyoff
      rfl

/-- The indicator of a window. -/
theorem case_winind_of (h : byte s.availIn = some (n, rest))
    (hstart : s.decWinstart + s.decTgtlen < 2 ^ 64) (hind : n &&& VCD_INVWIN = 0) :
    caseWinind s = caseCpylen { s with
      availIn := rest
      decWinInd := n
      currentWindow := s.decWindowCount
      decWinstart := s.decWinstart + s.decTgtlen
      decCpylen := 0
      decCpyoff := 0
      decCksum := []
      acache := .init s.sNear s.sSame
      decState := .cpylen } := by
  unfold caseWinind
  rw [bind_ok (decode_byte_of h), modify_bind, get_bind]
  refine (fail_if_bind ?_).trans ?_
  · show ¬ 2 ^ 64 - 1 - s.decWinstart < s.decTgtlen
    omega
  · rw [modify_bind]
    exact fail_if_bind (not_not_intro hind)

/-- The loop that puts a checksum together leaves nothing of the one before it. -/
theorem foldl_cksum (a : Nat) (bs : Bytes) :
    bs.foldl (fun a32 b => (a32 <<< 8 ||| b.toNat) % 2 ^ 32) a % 2 ^ 32 =
      (a * 256 ^ bs.length + Digits.ofBytes bs) % 2 ^ 32 := by
  induction bs using List.reverseRecOn with
  | nil => simp [Digits.ofBytes]
  | append_singleton bs b ih =>
      have hor : ∀ n : Nat, n <<< 8 ||| b.toNat = n * 256 + b.toNat := by
        intro n
        have hbyte : b.toNat < 2 ^ 8 := b.toNat_lt
        rw [← Nat.shiftLeft_add_eq_or_of_lt hbyte, Nat.shiftLeft_eq]
      have hpow : a * 256 ^ (bs.length + 1) = a * 256 ^ bs.length * 256 := by
        rw [pow_succ, Nat.mul_assoc]
      rw [List.foldl_append, List.foldl_cons, List.foldl_nil, hor, Digits.of_bytes_append,
        List.length_append, List.length_singleton, hpow]
      omega

/-- The four bytes of a checksum are one number. -/
theorem foldl_cksum_four {a : Nat} {bs : Bytes} (h : bs.length = 4) :
    bs.foldl (fun a32 b => (a32 <<< 8 ||| b.toNat) % 2 ^ 32) a = Digits.ofBytes bs := by
  have hvalue := foldl_cksum a bs
  have hlt : Digits.ofBytes bs < 2 ^ 32 := by
    have hlt := Digits.of_bytes_lt bs
    rw [h] at hlt
    exact hlt
  have hsmall : bs.foldl (fun a32 b => (a32 <<< 8 ||| b.toNat) % 2 ^ 32) a < 2 ^ 32 := by
    rw [← List.dropLast_concat_getLast (List.ne_nil_of_length_eq_add_one h), List.foldl_append]
    exact Nat.mod_lt _ (Nat.two_pow_pos 32)
  rw [h, Nat.mod_eq_of_lt hsmall] at hvalue
  omega

/-- The checksum of a window, and the end of its head. -/
theorem case_cksum_of {ck : Bytes} (h : cksum s.decWinInd s.availIn = some (ck, rest))
    (hbuf : s.decCksum = []) (henclen : s.decEnclen = s.enclenCheck) :
    caseCksum s = .ok (if s.currentWindow = 0 then .gotheader else .winstart) { s with
      availIn := rest
      decCksum := ck
      decAdler32 := if s.decWinInd &&& VCD_ADLER32 ≠ 0 then Digits.ofBytes ck else s.decAdler32
      decState := .data } := by
  have hend : ∀ t : Stream, t.decEnclen = t.enclenCheck →
      checkEnclen t = .ok (if t.currentWindow = 0 then .gotheader else .winstart)
        { t with decState := .data } := by
    intro t ht
    unfold checkEnclen
    rw [modify_bind, get_bind]
    exact fail_if_bind (not_not_intro ht)
  unfold caseCksum
  rw [get_bind]
  unfold cksum at h
  by_cases hon : s.decWinInd &&& VCD_ADLER32 ≠ 0
  · rw [if_pos hon] at h
    have hlen := (bytes_eq_some.1 h).2
    rw [only_if_of hon, if_pos hon]
    unfold readCksum
    rw [bind_assoc, bind_ok (decode_bytes_of h hbuf), modify_bind]
    rw [← foldl_cksum_four hlen]
    exact hend _ henclen
  · rw [if_neg hon] at h
    cases pure_eq_some.1 h
    rw [only_if_of_not hon, if_neg hon, pure_bind, hend s henclen, ← hbuf]

/-- The stream behind the head of a window. -/
def Stream.headed (s : Stream) (h : Head) (rest : Bytes) : Stream :=
  { s with
    availIn := rest
    decState := .data
    decWinInd := h.indicator
    currentWindow := s.decWindowCount
    decWinstart := s.decWinstart + s.decTgtlen
    decCpylen := h.cpylen
    decCpyoff := h.cpyoff
    decPosition := h.cpylen
    decEnclen := h.enclen
    decTgtlen := h.tgtlen
    decMaxpos := h.cpylen + h.tgtlen
    decDelInd := 0
    dataSect := { s.dataSect with size := h.dataLen }
    instSect := { s.instSect with size := h.instLen }
    addrSect := { s.addrSect with size := h.addrLen }
    decCksum := h.cksum
    decAdler32 := if h.indicator &&& VCD_ADLER32 ≠ 0 then Digits.ofBytes h.cksum else s.decAdler32
    acache := .init s.sNear s.sSame }

/-- What the format promises of the head of a window. -/
structure HeadFits (blksize : Nat) (h : Head) : Prop where
  target : h.indicator &&& VCD_TARGET = 0
  file : h.cpyoff + h.cpylen < 2 ^ 64
  block : h.cpylen + blksize ≤ 2 ^ 32
  window : h.cpylen + h.tgtlen < 2 ^ 32
  hard : h.tgtlen ≤ XD3_HARDMAXWINSIZE
  enclen : h.enclen < 2 ^ 32
  cpylen : h.indicator &&& VCD_SOURCE = 0 → h.cpylen = 0

/-- Without the flag, the segment is empty. -/
theorem segment_none {indicator cpylen cpyoff : Nat} {inp : Bytes}
    (h : Format.segment indicator inp = some ((cpylen, cpyoff), rest))
    (hsource : indicator &&& VCD_SOURCE = 0) : cpylen = 0 := by
  unfold Format.segment at h
  rw [if_neg (not_not_intro hsource)] at h
  cases pure_eq_some.1 h
  rfl

/-- The checksum has four bytes, or there is none. -/
theorem length_cksum {indicator : Nat} {inp ck : Bytes}
    (h : cksum indicator inp = some (ck, rest)) :
    ck.length = if indicator &&& VCD_ADLER32 ≠ 0 then 4 else 0 := by
  unfold cksum at h
  split at h
  · rename_i hon
    rw [if_pos hon]
    exact (bytes_eq_some.1 h).2
  · rename_i hon
    rw [if_neg hon]
    cases pure_eq_some.1 h
    rfl

/-- The head of a window is read to its end. -/
theorem case_winind_head {blksize : Nat} {hd : Head} (h : head blksize s.availIn = some (hd, rest))
    (hpart32 : s.dec32part = 0) (hpart64 : s.dec64part = 0)
    (hstart : s.decWinstart + s.decTgtlen < 2 ^ 64) :
    caseWinind s = .ok (if s.decWindowCount = 0 then .gotheader else .winstart)
      (s.headed hd rest) ∧ HeadFits blksize hd := by
  unfold head at h
  obtain ⟨indicator, r₁, hindicator, h⟩ := bind_eq_some.1 h
  obtain ⟨_, _, hcheck, h⟩ := bind_eq_some.1 h
  obtain ⟨⟨hinvalid, htarget⟩, hsame⟩ := check_eq_some.1 hcheck
  cases hsame
  obtain ⟨⟨cpylen, cpyoff⟩, r₂, hsegment, h⟩ := bind_eq_some.1 h
  obtain ⟨_, _, hcheck, h⟩ := bind_eq_some.1 h
  obtain ⟨⟨hfile, hblock⟩, hsame⟩ := check_eq_some.1 hcheck
  cases hsame
  obtain ⟨enclen, r₃, henclen, h⟩ := bind_eq_some.1 h
  obtain ⟨tgtlen, r₄, htgtlen, h⟩ := bind_eq_some.1 h
  obtain ⟨_, _, hcheck, h⟩ := bind_eq_some.1 h
  obtain ⟨⟨hwindow, hhard⟩, hsame⟩ := check_eq_some.1 hcheck
  cases hsame
  obtain ⟨delta, r₅, hdelta, h⟩ := bind_eq_some.1 h
  obtain ⟨_, _, hcheck, h⟩ := bind_eq_some.1 h
  obtain ⟨rfl, hsame⟩ := check_eq_some.1 hcheck
  cases hsame
  obtain ⟨dataLen, r₆, hdata, h⟩ := bind_eq_some.1 h
  obtain ⟨instLen, r₇, hinst, h⟩ := bind_eq_some.1 h
  obtain ⟨addrLen, r₈, haddr, h⟩ := bind_eq_some.1 h
  obtain ⟨ck, r₉, hcksum, h⟩ := bind_eq_some.1 h
  obtain ⟨_, _, hcheck, h⟩ := bind_eq_some.1 h
  obtain ⟨rfl, hsame⟩ := check_eq_some.1 hcheck
  cases hsame
  cases pure_eq_some.1 h
  have hsmall := number_lt (by decide) henclen
  refine ⟨?_, htarget, hfile, hblock, hwindow, hhard, hsmall, segment_none hsegment⟩
  let hd : Head := ⟨indicator, cpylen, cpyoff, tgtlen, dataLen, instLen, addrLen, ck⟩
  let s₁ : Stream := { s with
    availIn := r₁
    decWinInd := indicator
    currentWindow := s.decWindowCount
    decWinstart := s.decWinstart + s.decTgtlen
    decCpylen := 0
    decCpyoff := 0
    decCksum := []
    acache := .init s.sNear s.sSame
    decState := .cpylen }
  let s₂ : Stream := { s₁ with
    availIn := r₂, decCpylen := cpylen, decCpyoff := cpyoff, decPosition := cpylen
    decState := .enclen }
  let s₃ : Stream := { s₂ with availIn := r₃, decEnclen := hd.enclen, decState := .tgtlen }
  let s₄ : Stream := { s₃ with
    availIn := r₄, decTgtlen := tgtlen, decMaxpos := cpylen + tgtlen, decState := .delind }
  let s₅ : Stream := { s₄ with availIn := r₅, decDelInd := 0, decState := .datalen }
  let s₆ : Stream := { s₅ with
    availIn := r₆, dataSect := { s.dataSect with size := dataLen }, decState := .instlen }
  let s₇ : Stream := { s₆ with
    availIn := r₇, instSect := { s.instSect with size := instLen }, decState := .addrlen }
  let s₈ : Stream := { s₇ with
    availIn := r₈, addrSect := { s.addrSect with size := addrLen }, decState := .cksum }
  have hcheck : s₈.decEnclen = s₈.enclenCheck := by
    have hck : hd.cksum.length = _ := length_cksum hcksum
    have hmod : hd.enclen % 2 ^ 32 = hd.enclen := Nat.mod_eq_of_lt hsmall
    show hd.enclen = _
    rw [← hmod]
    unfold Head.enclen Stream.enclenCheck
    rw [hck]
  calc caseWinind s = caseCpylen s₁ := case_winind_of hindicator hstart hinvalid
    _ = caseEnclen s₂ :=
        case_cpylen_of (s := s₁) hsegment htarget rfl rfl hfile hpart32 hpart64
    _ = caseTgtlen s₃ := case_enclen_of (s := s₂) henclen hpart32
    _ = caseDelind s₄ := case_tgtlen_of (s := s₃) htgtlen hpart32 hwindow hhard
    _ = caseDatalen s₅ := case_delind_of (s := s₄) hdelta
    _ = caseInstlen s₆ := case_datalen_of (s := s₅) hdata hpart32
    _ = caseAddrlen s₇ := case_instlen_of (s := s₆) hinst hpart32
    _ = caseCksum s₈ := case_addrlen_of (s := s₇) haddr hpart32
    _ = _ := case_cksum_of (s := s₈) hcksum rfl hcheck

end Head

/-! ## The header -/

section Header

variable (T : Bytes → Nat → Nat → Except (ErrorCode × String) (List Dinst)) {s : Stream}
  {rest : Bytes}

/-- The stream behind a header without a code table. -/
def Stream.begun (s : Stream) (hdrInd appheadsz : Nat) (appheader rest : Bytes) : Stream :=
  { s with
    availIn := rest
    decState := .winind
    decMagic := VCDIFF_MAGIC ++ [0]
    decHdrInd := hdrInd
    sNear := CodeTableDesc.rfc3284.nearModes
    sSame := CodeTableDesc.rfc3284.sameModes
    codeTable := rfc3284CodeTable
    acache := .init CodeTableDesc.rfc3284.nearModes CodeTableDesc.rfc3284.sameModes
    decAppheadsz := appheadsz
    decAppheader := appheader }

/-- The cases that are about the code table of a header that has none. -/
theorem case_tablen_default (h : ¬ s.decHdrInd &&& VCD_CODETABLE ≠ 0) :
    caseTablen T s = caseApplen { s with
      sNear := CodeTableDesc.rfc3284.nearModes
      sSame := CodeTableDesc.rfc3284.sameModes
      codeTable := rfc3284CodeTable
      acache := .init CodeTableDesc.rfc3284.nearModes CodeTableDesc.rfc3284.sameModes
      decState := .applen } := by
  unfold caseTablen
  rw [get_bind]
  refine (field_case_of_not h).trans ?_
  rw [get_bind]
  refine (only_if_bind_of_not h).trans ?_
  unfold caseNear
  rw [get_bind]
  refine (field_case_of_not h).trans ?_
  unfold caseSame
  rw [get_bind]
  refine (field_case_of_not h).trans ?_
  unfold caseTabdat
  rw [get_bind]
  exact (congrFun (if_neg h) _).trans rfl

/-- The data of the application. -/
theorem case_applen_of (hon : s.decHdrInd &&& VCD_APPHEADER ≠ 0) {size : Nat} {mid app : Bytes}
    (hsize : number 32 s.availIn = some (size, mid)) (hfits : size + 1 < 2 ^ 32)
    (happ : bytes size mid = some (app, rest)) (hbuf : s.decAppheader = [])
    (hpart : s.dec32part = 0) :
    caseApplen s = caseWinind { s with
      availIn := rest, decAppheadsz := size, decAppheader := app, decState := .winind } := by
  let t : Stream := { s with availIn := mid, decAppheadsz := size, decState := .appdat }
  have hread : decodeBytes (·.decAppheader) (fun app s => { s with decAppheader := app }) size t =
      .ok () { t with availIn := rest, decAppheader := app } := decode_bytes_of (s := t) happ hbuf
  unfold caseApplen
  rw [get_bind]
  refine (field_case_of hon (decode_size_of hsize hpart)).trans ?_
  unfold caseAppdat
  rw [get_bind]
  refine (only_if_bind_of hon).trans ?_
  unfold decodeAppheader
  rw [bind_assoc]
  refine (overrun_if_bind (Nat.ne_of_lt hfits)).trans ?_
  exact (bind_ok hread).trans rfl

/-- Without an application header, the first window follows. -/
theorem case_applen_of_not (hoff : ¬ s.decHdrInd &&& VCD_APPHEADER ≠ 0) :
    caseApplen s = caseWinind { s with decState := .winind } := by
  unfold caseApplen
  rw [get_bind]
  refine (field_case_of_not hoff).trans ?_
  unfold caseAppdat
  rw [get_bind]
  exact (only_if_bind_of_not hoff).trans rfl

/-- A header is read to its end. -/
theorem case_vchead_header (h : header s.availIn = some ((), rest)) (hmagic : s.decMagic = [])
    (hbuf : s.decAppheader = []) (hpart : s.dec32part = 0) :
    ∃ hdrInd appheadsz appheader,
      caseVchead T s = caseWinind (s.begun hdrInd appheadsz appheader rest) := by
  unfold header at h
  obtain ⟨magic, r₁, hbytes, h⟩ := bind_eq_some.1 h
  obtain ⟨_, _, hcheck, h⟩ := bind_eq_some.1 h
  obtain ⟨rfl, hsame⟩ := check_eq_some.1 hcheck
  cases hsame
  obtain ⟨indicator, r₂, hindicator, h⟩ := bind_eq_some.1 h
  obtain ⟨_, _, hcheck, h⟩ := bind_eq_some.1 h
  obtain ⟨hknown, hsame⟩ := check_eq_some.1 hcheck
  cases hsame
  have hbits : indicator &&& VCD_INVHDR = 0 ∧ indicator &&& VCD_SECONDARY = 0 ∧
      indicator &&& VCD_CODETABLE = 0 := by
    rcases hknown with rfl | rfl <;> exact ⟨by decide, by decide, by decide⟩
  obtain ⟨hinvalid, hsecondary, htable⟩ := hbits
  let s₁ : Stream := { s with
    availIn := r₁, decMagic := VCDIFF_MAGIC ++ [0], decState := .hdrind }
  let s₂ : Stream := { s₁ with availIn := r₂, decHdrInd := indicator, decState := .secondid }
  let s₃ : Stream := { s₂ with
    sNear := CodeTableDesc.rfc3284.nearModes
    sSame := CodeTableDesc.rfc3284.sameModes
    codeTable := rfc3284CodeTable
    acache := .init CodeTableDesc.rfc3284.nearModes CodeTableDesc.rfc3284.sameModes
    decState := .applen }
  have hmagics : caseVchead T s = caseHdrind T s₁ := by
    unfold caseVchead
    rw [bind_ok (decode_bytes_of hbytes hmagic), get_bind]
    refine (fail_if_bind ?_).trans ((fail_if_bind ?_).trans rfl)
    · exact not_not_intro rfl
    · exact not_not_intro rfl
  have hinds : caseHdrind T s₁ = caseSecondid T s₂ := by
    unfold caseHdrind
    rw [bind_ok (decode_byte_of (s := s₁) hindicator), modify_bind]
    exact (fail_if_bind (not_not_intro hinvalid)).trans rfl
  have hsecond : caseSecondid T s₂ = caseTablen T s₂ := by
    unfold caseSecondid
    rw [get_bind]
    exact only_if_bind_of_not (not_not_intro hsecondary)
  rw [hmagics, hinds, hsecond, case_tablen_default T (s := s₂) (not_not_intro htable)]
  by_cases happ : indicator = VCD_APPHEADER
  · rw [if_pos happ] at h
    obtain ⟨size, r₃, hsize, h⟩ := bind_eq_some.1 h
    obtain ⟨_, _, hcheck, h⟩ := bind_eq_some.1 h
    obtain ⟨hfits, hsame⟩ := check_eq_some.1 hcheck
    cases hsame
    obtain ⟨app, r₄, happs, h⟩ := bind_eq_some.1 h
    cases pure_eq_some.1 h
    have hon : s₃.decHdrInd &&& VCD_APPHEADER ≠ 0 := by
      show indicator &&& VCD_APPHEADER ≠ 0
      rw [happ]
      decide
    exact ⟨indicator, size, app, case_applen_of (s := s₃) hon hsize hfits happs hbuf hpart⟩
  · rw [if_neg happ] at h
    cases pure_eq_some.1 h
    have hzero : indicator = 0 := hknown.resolve_right happ
    have hoff : ¬ s₃.decHdrInd &&& VCD_APPHEADER ≠ 0 := by
      show ¬ indicator &&& VCD_APPHEADER ≠ 0
      rw [hzero]
      decide
    exact ⟨indicator, s.decAppheadsz, s.decAppheader, case_applen_of_not (s := s₃) hoff⟩

end Header

/-! ## The sections of a window -/

section Sections

variable {s : Stream} {rest : Bytes}

/-- A section that lies in the input. -/
theorem decode_section_of (which : Section) {nstate : DecState} {xs : Bytes}
    (htaken : (s.sect which).taken = [])
    (h : bytes (s.sect which).size s.availIn = some (xs, rest)) :
    decodeSection which nstate false s = .ok () ({ s with
      availIn := rest
      decWinbytes := (s.decWinbytes + xs.length) % 2 ^ 32
      decState := nstate }.setSect { s.sect which with taken := [], buf := xs } which) := by
  obtain ⟨hinp, hsize⟩ := bytes_eq_some.1 h
  have hle : xs.length ≤ s.availIn.length := by
    rw [hinp, List.length_append]
    exact Nat.le_add_right _ _
  have hsome : ¬ ((s.sect which).taken.length < (s.sect which).size ∧ s.availIn = []) := by
    rintro ⟨hless, hnil⟩
    rw [htaken, List.length_nil] at hless
    rw [hnil, List.length_nil] at hle
    omega
  have hall : ¬ ((s.sect which).taken.length < (s.sect which).size ∧ false = false ∧
      (s.sect which).taken = [] ∧ s.availIn.length < (s.sect which).size) := by
    rintro ⟨-, -, -, hshort⟩
    omega
  have hcopy : ¬ (false = true ∨ (s.sect which).taken ≠ []) :=
    not_or.2 ⟨Bool.false_ne_true, not_not_intro htaken⟩
  have hmin : min xs.length s.availIn.length = xs.length := min_eq_left hle
  have htake : s.availIn.take xs.length = xs := by rw [hinp, List.take_left]
  have hdrop : s.availIn.drop xs.length = rest := by rw [hinp, List.drop_left]
  refine (if_neg hsome).trans ((if_neg hall).trans ?_)
  refine (if_neg fun hover => hcopy hover.2.1).trans ?_
  simp only [htaken, ← hsize, List.length_nil, Nat.sub_zero, hmin, List.nil_append, htake, hdrop,
    lt_irrefl, if_false]

/-- Nothing is copied if all sections are in the input. -/
theorem copies_eq_false (hwinbytes : s.decWinbytes = 0)
    (htotal : s.instSect.size + s.addrSect.size + s.dataSect.size < 2 ^ 32)
    (hle : s.instSect.size + s.addrSect.size + s.dataSect.size ≤ s.availIn.length) :
    s.copies = false := by
  unfold Stream.copies usizeSub
  simp only [ne_eq, decide_not, Bool.not_eq_false', decide_eq_true_eq]
  omega

/-- The buffer for the target becomes large enough. -/
theorem decode_setup_buffers_of (h : s.decWinInd &&& VCD_TARGET = 0)
    (hhard : s.decTgtlen ≤ XD3_HARDMAXWINSIZE) (hbuffer : s.outBuffer = s.decBuffer) :
    ∃ spaceOut buffer, s.decTgtlen ≤ spaceOut ∧ decodeSetupBuffers s =
      .ok () { s with spaceOut, outBuffer := buffer, decBuffer := buffer } := by
  unfold XD3_HARDMAXWINSIZE at hhard
  have hfits : s.decTgtlen + XD3_ALLOCSIZE ≤ 2 ^ 32 := by
    unfold XD3_ALLOCSIZE
    omega
  have hsetup : decodeSetupBuffers s =
      (onlyIf (s.spaceOut < s.decTgtlen) (modify Stream.allocated)) s := by
    unfold decodeSetupBuffers
    rw [get_bind, only_if_of_not (not_not_intro h), pure_bind, get_bind]
  rw [hsetup]
  by_cases hroom : s.spaceOut < s.decTgtlen
  · rw [only_if_of hroom]
    exact ⟨_, _, le_round_blksize hfits, rfl⟩
  · rw [only_if_of_not hroom]
    have hsame : ∀ out dec, s.outBuffer = out → s.decBuffer = dec →
        s = { s with outBuffer := out, decBuffer := dec } := by
      rintro out dec rfl rfl
      rfl
    exact ⟨s.spaceOut, s.decBuffer, Nat.le_of_not_lt hroom,
      congrArg (EStateM.Result.ok ()) (hsame _ _ hbuffer rfl)⟩

/-- The stream behind the sections of a window. -/
def Stream.loaded (s : Stream) (data inst addr rest : Bytes) (decWinbytes spaceOut : Nat)
    (buffer : Option Nat) : Stream :=
  { s with
    availIn := rest
    decState := .emit
    decWinbytes
    spaceOut
    outBuffer := buffer
    decBuffer := buffer
    dataSect := { s.dataSect with taken := [], buf := data }
    instSect := { s.instSect with taken := [], buf := inst }
    addrSect := { s.addrSect with taken := [], buf := addr } }

/-- The sections of a window are read to their end. -/
theorem case_sections_of {data inst addr r₁ r₂ : Bytes} (hstate : s.decState = .data)
    (htarget : s.decWinInd &&& VCD_TARGET = 0) (hhard : s.decTgtlen ≤ XD3_HARDMAXWINSIZE)
    (hbuffer : s.outBuffer = s.decBuffer) (hwinbytes : s.decWinbytes = 0)
    (htotal : s.instSect.size + s.addrSect.size + s.dataSect.size < 2 ^ 32)
    (htaken : ∀ which, (s.sect which).taken = [])
    (hdata : bytes s.dataSect.size s.availIn = some (data, r₁))
    (hinst : bytes s.instSect.size r₁ = some (inst, r₂))
    (haddr : bytes s.addrSect.size r₂ = some (addr, rest)) :
    ∃ decWinbytes spaceOut buffer, s.decTgtlen ≤ spaceOut ∧
      caseSections s = caseEmit (s.loaded data inst addr rest decWinbytes spaceOut buffer) := by
  let s₁ : Stream := { s with
    availIn := r₁
    decWinbytes := (s.decWinbytes + data.length) % 2 ^ 32
    decState := .inst
    dataSect := { s.dataSect with taken := [], buf := data } }
  let s₂ : Stream := { s₁ with
    availIn := r₂
    decWinbytes := (s₁.decWinbytes + inst.length) % 2 ^ 32
    decState := .addr
    instSect := { s.instSect with taken := [], buf := inst } }
  let s₃ : Stream := { s₂ with
    availIn := rest
    decWinbytes := (s₂.decWinbytes + addr.length) % 2 ^ 32
    decState := .emit
    addrSect := { s.addrSect with taken := [], buf := addr } }
  have hcopies : s.copies = false := by
    refine copies_eq_false hwinbytes htotal ?_
    have hone := bytes_eq_some.1 hdata
    have htwo := bytes_eq_some.1 hinst
    have hthree := bytes_eq_some.1 haddr
    rw [hone.1, htwo.1, hthree.1]
    simp only [List.length_append]
    omega
  have hone : decodeSection .data .inst false s = .ok () s₁ :=
    decode_section_of .data (htaken .data) hdata
  have htwo : decodeSection .inst .addr false s₁ = .ok () s₂ :=
    decode_section_of .inst (htaken .inst) hinst
  have hthree : decodeSection .addr .emit false s₂ = .ok () s₃ :=
    decode_section_of .addr (htaken .addr) haddr
  obtain ⟨spaceOut, buffer, hspace, hsetup⟩ :=
    decode_setup_buffers_of (s := s₃) htarget hhard hbuffer
  refine ⟨s₃.decWinbytes, spaceOut, buffer, hspace, ?_⟩
  unfold caseSections decodeSections
  rw [bind_assoc, get_bind, bind_assoc, hstate, hcopies]
  unfold sectionCase
  rw [bind_assoc, bind_ok hone, bind_assoc, bind_ok htwo, bind_ok hthree, bind_ok hsetup]
  rfl

end Sections

end NamelessCenter.Vcdiff
