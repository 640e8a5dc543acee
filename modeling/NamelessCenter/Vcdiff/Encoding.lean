import NamelessCenter.Vcdiff.Encoder

/-!
# The files of the encoder

A window of the encoder is a header with the lengths of its sections, which follow it, and the first
window comes with the header of the file. What the format makes of such a file is the input of its
windows (`vcdiff_encode_windows`).
-/

namespace NamelessCenter.Vcdiff

open Bytes Format

namespace Encoder

/-- `xd3_encoder_used_source`. -/
def usedSource (e : Encoder) : Bool :=
  match e.src with
  | some src => 0 < src.srclen
  | none => false

/-- `win_ind`. -/
def winInd (e : Encoder) (useAdler32 : Bool) : Nat :=
  (if e.usedSource then VCD_SOURCE else 0) ||| (if useAdler32 then VCD_ADLER32 else 0)

/-- `enc_len`. -/
def encLen (e : Encoder) (useAdler32 : Bool) : Nat :=
  1 + (sizeofSize e.nextIn.length + sizeofSize e.dataTail.length + sizeofSize e.instTail.length +
    sizeofSize e.addrTail.length) + e.dataTail.length + e.instTail.length + e.addrTail.length +
    if useAdler32 then 4 else 0

/-- The four bytes of the checksum. -/
def send (a32 : Nat) : Bytes :=
  [UInt8.ofNat (a32 >>> 24), UInt8.ofNat (a32 >>> 16), UInt8.ofNat (a32 >>> 8),
    UInt8.ofNat (a32 &&& 0x000000ff)]

/-- The header of the file in `xd3_emit_hdr`, without a secondary compressor. -/
def emitFileHdr (encAppheader : Option Bytes) : Bytes :=
  VCDIFF_MAGIC ++ (0 :: match encAppheader with
    | some data => UInt8.ofNat VCD_APPHEADER :: (emitSize data.length ++ data)
    | none => [0])

/-- The position of the segment in `xd3_emit_hdr`. -/
def emitSource (e : Encoder) : Bytes :=
  match e.src with
  | some src => if e.usedSource then emitSize src.srclen ++ emitOffset src.srcbase else []
  | none => []

/-- `xd3_emit_hdr`, without a secondary compressor and with the default code table. -/
def emitHdr (e : Encoder) (encAppheader : Option Bytes) (useAdler32 : Bool) (currentWindow : Nat) :
    Bytes :=
  (if currentWindow = 0 then emitFileHdr encAppheader else []) ++
    (UInt8.ofNat (e.winInd useAdler32) :: (e.emitSource ++
      (emitSize (e.encLen useAdler32) ++ (emitSize e.nextIn.length ++ (0 ::
        (emitSize e.dataTail.length ++ (emitSize e.instTail.length ++
          (emitSize e.addrTail.length ++
            if useAdler32 then send (adler32 32 1 e.nextIn) else []))))))))

end Encoder

/-- The input of a window, the part of the source for it and its matches. -/
structure Piece where
  nextIn : Bytes
  src : Option SourceWindow
  insts : List Rinst

/-- The output for windows from the given one on. -/
def encodeWindows (encAppheader : Option Bytes) (useAdler32 : Bool) : Nat → List Piece → Bytes
  | _, [] => []
  | currentWindow, p :: ps =>
      let e := encode p.nextIn p.src p.insts
      e.emitHdr encAppheader useAdler32 currentWindow ++
        (e.dataTail ++ (e.instTail ++ (e.addrTail ++
          encodeWindows encAppheader useAdler32 (currentWindow + 1) ps)))

/-! ## Reading a header -/

/-- A size is read as it was written. -/
theorem number_emit_size {num : Nat} (hnum : num < 2 ^ 32) (rest : Bytes) :
    number 32 (emitSize num ++ rest) = some (num, rest) :=
  number_eq_some.2 (decode_integer_eq_done_iff.2
    (read_integer_emit_integer (by decide) (by decide) hnum rest))

/-- An offset is read as it was written. -/
theorem number_emit_offset {num : Nat} (hnum : num < 2 ^ 64) (rest : Bytes) :
    number 64 (emitOffset num ++ rest) = some (num, rest) :=
  number_eq_some.2 (decode_integer_eq_done_iff.2
    (read_integer_emit_integer (by decide) (by decide) hnum rest))

/-- As many bytes are read as were written. -/
theorem bytes_append (xs rest : Bytes) : bytes xs.length (xs ++ rest) = some (xs, rest) :=
  bytes_eq_some.2 ⟨rfl, rfl⟩

/-- The checksum has 32 bits. -/
theorem adler32_lt (xs : Bytes) : adler32 32 1 xs < 2 ^ 32 := by
  rw [(adler32_deferred le_rfl xs []).1]
  have hfirst := Nat.mod_lt (1 + (xs.map UInt8.toNat).sum) (show 0 < A32_BASE by decide)
  have hsecond := Nat.mod_lt (xs.length + (xs.mapIdx fun i b => (xs.length - i) * b.toNat).sum)
    (show 0 < A32_BASE by decide)
  have hbase : A32_BASE = 65521 := rfl
  omega

/-- It is read as it was written. -/
theorem of_bytes_send {a32 : Nat} (h : a32 < 2 ^ 32) : Digits.ofBytes (Encoder.send a32) = a32 := by
  have hlow : a32 &&& 0x000000ff = a32 % 256 := Nat.and_two_pow_sub_one_eq_mod a32 8
  unfold Encoder.send Digits.ofBytes
  simp only [List.foldl_cons, List.foldl_nil, UInt8.toNat_ofNat', Nat.shiftRight_eq_div_pow, hlow]
  omega

namespace Encoder

variable {e : Encoder} {useAdler32 : Bool}

/-- The flags of the window indicator. -/
theorem win_ind_flags (e : Encoder) (useAdler32 : Bool) :
    (UInt8.ofNat (e.winInd useAdler32)).toNat = e.winInd useAdler32 ∧
    e.winInd useAdler32 &&& VCD_INVWIN = 0 ∧ e.winInd useAdler32 &&& VCD_TARGET = 0 ∧
    (e.winInd useAdler32 &&& VCD_SOURCE ≠ 0 ↔ e.usedSource = true) ∧
    (e.winInd useAdler32 &&& VCD_ADLER32 ≠ 0 ↔ useAdler32 = true) := by
  unfold winInd
  cases e.usedSource with
  | false => cases useAdler32 <;> decide
  | true => cases useAdler32 <;> decide

/-- The head that the decoder reads. -/
def head (e : Encoder) (useAdler32 : Bool) : Head where
  indicator := e.winInd useAdler32
  cpylen := e.taroff
  cpyoff := (e.src.map SourceWindow.srcbase).getD 0
  tgtlen := e.nextIn.length
  dataLen := e.dataTail.length
  instLen := e.instTail.length
  addrLen := e.addrTail.length
  cksum := if useAdler32 then send (adler32 32 1 e.nextIn) else []

/-- The length that the head announces is that of what follows. -/
theorem head_enclen : (e.head useAdler32).enclen = e.encLen useAdler32 := by
  cases useAdler32 <;> rfl

/-- The source window is read as it was written. -/
theorem segment_emit_source (hpos : ∀ w, e.src = some w → 0 < w.srclen)
    (hsrclen : e.taroff < 2 ^ 32) (hsrcbase : (e.src.map SourceWindow.srcbase).getD 0 < 2 ^ 64)
    (rest : Bytes) : Format.segment (e.winInd useAdler32) (e.emitSource ++ rest) =
      some ((e.taroff, (e.src.map SourceWindow.srcbase).getD 0), rest) := by
  have hsource := (win_ind_flags e useAdler32).2.2.2.1
  unfold Format.segment emitSource
  cases hsrc : e.src with
  | none =>
      have hoff : ¬ e.winInd useAdler32 &&& VCD_SOURCE ≠ 0 := by
        rw [hsource]
        unfold usedSource
        rw [hsrc]
        exact Bool.noConfusion
      rw [if_neg hoff, taroff_none hsrc]
      rfl
  | some w =>
      have hused : e.usedSource = true := by
        unfold usedSource
        rw [hsrc]
        exact decide_eq_true (hpos w hsrc)
      have htaroff : e.taroff = w.srclen := taroff_some hsrc
      rw [if_pos (hsource.2 hused)]
      simp only [hused, if_true]
      rw [hsrc] at hsrcbase
      rw [htaroff] at hsrclen ⊢
      rw [List.append_assoc]
      exact bind_eq_some.2 ⟨_, _, number_emit_size hsrclen _,
        bind_eq_some.2 ⟨_, _, number_emit_offset hsrcbase _, rfl⟩⟩

/-- What a window may be for the decoder to take it. -/
structure Allowed (blksize : Nat) (e : Encoder) : Prop where
  used : ∀ w, e.src = some w → 0 < w.srclen
  file : (e.src.map SourceWindow.srcbase).getD 0 + e.taroff < 2 ^ 64
  block : e.taroff + blksize ≤ 2 ^ 32
  window : e.taroff + e.nextIn.length < 2 ^ 32
  hard : e.nextIn.length ≤ XD3_HARDMAXWINSIZE
  data : e.dataTail.length ≤ e.nextIn.length
  inst : e.instTail.length ≤ 6 * e.nextIn.length
  addr : e.addrTail.length ≤ 5 * e.nextIn.length

/-- The announced length has 32 bits. -/
theorem Allowed.enc_len_lt {blksize : Nat} (h : Allowed blksize e) :
    e.encLen useAdler32 < 2 ^ 32 := by
  have hsizeof : ∀ num, sizeofSize num ≤ 5 := by
    intro num
    unfold sizeofSize sizeofUint32
    split_ifs <;> decide
  have hhard := h.hard
  have hdata := h.data
  have hinst := h.inst
  have haddr := h.addr
  have h₁ := hsizeof e.nextIn.length
  have h₂ := hsizeof e.dataTail.length
  have h₃ := hsizeof e.instTail.length
  have h₄ := hsizeof e.addrTail.length
  have hmax : XD3_HARDMAXWINSIZE = 2 ^ 24 := rfl
  unfold encLen
  split <;> omega

variable (useAdler32) in

/-- The decoder reads what the encoder wrote of a window behind the header of the file. -/
theorem window_emit_hdr {blksize : Nat} (h : Allowed blksize e) (encAppheader : Option Bytes)
    {currentWindow : Nat} (hcurrent : currentWindow ≠ 0) (rest : Bytes) :
    Format.window blksize (e.emitHdr encAppheader useAdler32 currentWindow ++
      (e.dataTail ++ (e.instTail ++ (e.addrTail ++ rest)))) =
        some (⟨e.head useAdler32, e.dataTail, e.instTail, e.addrTail⟩, rest) := by
  obtain ⟨hbyte, hinvwin, htarget, -, hadler⟩ := win_ind_flags e useAdler32
  have hfile := h.file
  have hblock := h.block
  have hwindow := h.window
  have hhard := h.hard
  have hmax : XD3_HARDMAXWINSIZE = 2 ^ 24 := rfl
  have hdata := h.data
  have hinst := h.inst
  have haddr := h.addr
  have hcksum : ∀ rest : Bytes, cksum (e.winInd useAdler32)
      ((if useAdler32 then send (adler32 32 1 e.nextIn) else []) ++ rest) =
        some ((e.head useAdler32).cksum, rest) := by
    intro rest
    unfold cksum
    cases huse : useAdler32 with
    | true =>
        rw [if_pos ((huse ▸ hadler).2 rfl)]
        exact bytes_append (send (adler32 32 1 e.nextIn)) rest
    | false =>
        rw [if_neg fun hon => Bool.noConfusion ((huse ▸ hadler).1 hon)]
        rfl
  have hhead : ∀ rest : Bytes, Format.head blksize
      (e.emitHdr encAppheader useAdler32 currentWindow ++ rest) =
        some (e.head useAdler32, rest) := by
    intro rest
    unfold emitHdr
    rw [if_neg hcurrent, List.nil_append, List.cons_append]
    simp only [List.append_assoc, List.cons_append]
    unfold Format.head
    refine bind_eq_some.2 ⟨_, _, congrArg (fun n => some (n, _)) hbyte, ?_⟩
    refine bind_eq_some.2 ⟨_, _, check_eq_some.2 ⟨⟨hinvwin, htarget⟩, rfl⟩, ?_⟩
    refine bind_eq_some.2 ⟨_, _, segment_emit_source h.used (by omega) (by omega) _, ?_⟩
    refine bind_eq_some.2 ⟨_, _, check_eq_some.2 ⟨⟨hfile, hblock⟩, rfl⟩, ?_⟩
    refine bind_eq_some.2 ⟨_, _, number_emit_size h.enc_len_lt _, ?_⟩
    refine bind_eq_some.2 ⟨_, _, number_emit_size (by omega) _, ?_⟩
    refine bind_eq_some.2 ⟨_, _, check_eq_some.2 ⟨⟨hwindow, hhard⟩, rfl⟩, ?_⟩
    refine bind_eq_some.2 ⟨_, _, rfl, ?_⟩
    refine bind_eq_some.2 ⟨_, _, check_eq_some.2 ⟨rfl, rfl⟩, ?_⟩
    refine bind_eq_some.2 ⟨_, _, number_emit_size (by omega) _, ?_⟩
    refine bind_eq_some.2 ⟨_, _, number_emit_size (by omega) _, ?_⟩
    refine bind_eq_some.2 ⟨_, _, number_emit_size (by omega) _, ?_⟩
    refine bind_eq_some.2 ⟨_, _, hcksum rest, ?_⟩
    exact bind_eq_some.2 ⟨_, _, check_eq_some.2 ⟨head_enclen.symm, rfl⟩, rfl⟩
  unfold Format.window
  refine bind_eq_some.2 ⟨_, _, hhead _, ?_⟩
  refine bind_eq_some.2 ⟨_, _, bytes_append _ _, ?_⟩
  refine bind_eq_some.2 ⟨_, _, bytes_append _ _, ?_⟩
  exact bind_eq_some.2 ⟨_, _, bytes_append _ _, rfl⟩

end Encoder

/-! ## The meaning of a file -/

/-- The matches of a window are found in what was decided on of the source, and the window is within
the limits of the decoder. -/
structure Piece.Encodable (source : Bytes) (blksize : Nat) (p : Piece) : Prop where
  found : ∀ inst ∈ p.insts, Found source p.nextIn p.src inst
  order : InOrder 0 p.insts
  source : ∀ w, p.src = some w → 0 < w.srclen ∧ w.srcbase + w.srclen ≤ source.length ∧
    w.srcbase + w.srclen < 2 ^ 64
  block : (p.src.map SourceWindow.srclen).getD 0 + blksize ≤ 2 ^ 32
  window : (p.src.map SourceWindow.srclen).getD 0 + p.nextIn.length < 2 ^ 32
  hard : p.nextIn.length ≤ XD3_HARDMAXWINSIZE

/-- The encoding of a piece can be written, and its target is the piece. -/
theorem Piece.Encodable.allowed {source : Bytes} {blksize : Nat} {p : Piece}
    (h : p.Encodable source blksize) (useAdler32 : Bool) :
    Encoder.Allowed blksize (encode p.nextIn p.src p.insts) ∧
      (encode p.nextIn p.src p.insts).nextIn = p.nextIn ∧
      Window.target source ⟨(encode p.nextIn p.src p.insts).head useAdler32,
        (encode p.nextIn p.src p.insts).dataTail, (encode p.nextIn p.src p.insts).instTail,
        (encode p.nextIn p.src p.insts).addrTail⟩ = some p.nextIn := by
  have hmeans := fun head : Head => encode_means head h.found h.order
    (fun w hw => (h.source w hw).2.1) h.window
  obtain ⟨-, hdata, hinst, haddr, hnextIn, hsrc⟩ :=
    hmeans ⟨0, _, _, _, 0, 0, 0, []⟩ rfl rfl rfl fun hon => absurd (Nat.zero_and _) hon
  have htaroff : (encode p.nextIn p.src p.insts).taroff =
      (p.src.map SourceWindow.srclen).getD 0 := by
    unfold Encoder.taroff
    rw [hsrc]
  refine ⟨⟨?_, ?_, ?_, ?_, ?_, ?_, ?_, ?_⟩, hnextIn, ?_⟩
  · rw [hsrc]
    exact fun w hw => (h.source w hw).1
  · rw [hsrc, htaroff]
    cases hw : p.src with
    | none => exact Nat.two_pow_pos 64
    | some w => exact (h.source w hw).2.2
  · rw [htaroff]
    exact h.block
  · rw [htaroff, hnextIn]
    exact h.window
  · rw [hnextIn]
    exact h.hard
  · rw [hnextIn]
    exact hdata
  · rw [hnextIn]
    exact hinst
  · rw [hnextIn]
    exact haddr
  · refine (hmeans _ ?_ htaroff ?_ fun hon => ?_).1
    · unfold Encoder.head
      rw [hsrc]
    · exact congrArg List.length hnextIn
    · have huse : useAdler32 = true := (Encoder.win_ind_flags _ _).2.2.2.2.1 hon
      unfold Encoder.head
      rw [huse, hnextIn]
      exact (of_bytes_send (adler32_lt _)).symm

variable {source : Bytes} {blksize : Nat} {encAppheader : Option Bytes} {useAdler32 : Bool}

/-- The windows are read as they were written. -/
theorem windows_encode_windows {n start currentWindow : Nat} {ps : List Piece}
    (hn : ps.length ≤ n) (hcurrent : currentWindow ≠ 0)
    (hpieces : ∀ p ∈ ps, p.Encodable source blksize)
    (htotal : start + (ps.flatMap Piece.nextIn).length < 2 ^ 64) :
    windows blksize source n start (encodeWindows encAppheader useAdler32 currentWindow ps) =
      some (ps.flatMap Piece.nextIn) := by
  induction ps generalizing n start currentWindow with
  | nil => cases n <;> rfl
  | cons p ps ih =>
      obtain ⟨n, rfl⟩ : ∃ m, n = m + 1 := ⟨n - 1, by rw [List.length_cons] at hn; omega⟩
      obtain ⟨hallowed, -, htarget⟩ := (hpieces p List.mem_cons_self).allowed useAdler32
      have hwindow := Encoder.window_emit_hdr useAdler32 hallowed encAppheader hcurrent
        (encodeWindows encAppheader useAdler32 (currentWindow + 1) ps)
      rw [List.flatMap_cons, List.length_append] at htotal
      have hleft : start + p.nextIn.length + (ps.flatMap Piece.nextIn).length < 2 ^ 64 := by omega
      have hrest := ih (Nat.le_of_succ_le_succ hn) (Nat.succ_ne_zero currentWindow)
        (fun q hq => hpieces q (List.mem_cons_of_mem p hq)) hleft
      obtain ⟨b, bs, hinp⟩ : ∃ b bs, encodeWindows encAppheader useAdler32 currentWindow (p :: ps) =
          b :: bs := by
        unfold encodeWindows Encoder.emitHdr
        rw [if_neg hcurrent]
        exact ⟨_, _, rfl⟩
      rw [hinp]
      unfold windows
      rw [if_pos (show start < 2 ^ 64 by omega), ← hinp]
      show (Format.window blksize _).bind _ = _
      unfold encodeWindows
      rw [hwindow]
      show (Window.target source _).bind _ = _
      rw [htarget]
      show (windows blksize source n (start + p.nextIn.length) _).bind _ = _
      rw [hrest]
      rfl

/-- The header is read as it was written. -/
theorem header_emit_file_hdr (happ : ∀ data, encAppheader = some data → data.length + 1 < 2 ^ 32)
    (rest : Bytes) :
    Format.header (Encoder.emitFileHdr encAppheader ++ rest) = some ((), rest) := by
  unfold Format.header Encoder.emitFileHdr
  cases encAppheader with
  | none =>
      refine bind_eq_some.2 ⟨_, _, bytes_append [0xd6, 0xc3, 0xc4, 0] _, ?_⟩
      refine bind_eq_some.2 ⟨_, _, check_eq_some.2 ⟨rfl, rfl⟩, ?_⟩
      refine bind_eq_some.2 ⟨_, _, rfl, ?_⟩
      exact bind_eq_some.2 ⟨_, _, check_eq_some.2 ⟨.inl rfl, rfl⟩, rfl⟩
  | some data =>
      have hlength := happ data rfl
      refine bind_eq_some.2 ⟨_, _, bytes_append [0xd6, 0xc3, 0xc4, 0] _, ?_⟩
      refine bind_eq_some.2 ⟨_, _, check_eq_some.2 ⟨rfl, rfl⟩, ?_⟩
      refine bind_eq_some.2 ⟨VCD_APPHEADER, (emitSize data.length ++ data) ++ rest, rfl, ?_⟩
      refine bind_eq_some.2 ⟨_, _, check_eq_some.2 ⟨.inr rfl, rfl⟩, ?_⟩
      rw [if_pos rfl, List.append_assoc]
      refine bind_eq_some.2 ⟨_, _, number_emit_size (by omega) _, ?_⟩
      refine bind_eq_some.2 ⟨_, _, check_eq_some.2 ⟨hlength, rfl⟩, ?_⟩
      exact bind_eq_some.2 ⟨_, _, bytes_append _ _, rfl⟩

/-- The header of the file comes with the first window only. -/
theorem encode_windows_later {ps : List Piece} {currentWindow other : Nat}
    (hcurrent : currentWindow ≠ 0) (hother : other ≠ 0) :
    encodeWindows encAppheader useAdler32 currentWindow ps =
      encodeWindows encAppheader useAdler32 other ps := by
  induction ps generalizing currentWindow other with
  | nil => rfl
  | cons p ps ih =>
      unfold encodeWindows Encoder.emitHdr
      rw [if_neg hcurrent, if_neg hother,
        ih (Nat.succ_ne_zero currentWindow) (Nat.succ_ne_zero other)]

/-- The header comes in front of the first window. -/
theorem encode_windows_first (p : Piece) (ps : List Piece) :
    encodeWindows encAppheader useAdler32 0 (p :: ps) =
      Encoder.emitFileHdr encAppheader ++ encodeWindows encAppheader useAdler32 1 (p :: ps) := by
  unfold encodeWindows Encoder.emitHdr
  rw [if_pos rfl, if_neg one_ne_zero]
  have hlater : encodeWindows encAppheader useAdler32 (0 + 1) ps =
      encodeWindows encAppheader useAdler32 (1 + 1) ps :=
    encode_windows_later (Nat.succ_ne_zero 0) (Nat.succ_ne_zero 1)
  rw [hlater]
  exact List.append_assoc _ _ _

/-- Every window takes a byte at least. -/
theorem length_encode_windows {ps : List Piece} (currentWindow : Nat) :
    ps.length ≤ (encodeWindows encAppheader useAdler32 currentWindow ps).length := by
  induction ps generalizing currentWindow with
  | nil => exact Nat.zero_le _
  | cons p ps ih =>
      have hrest := ih (currentWindow + 1)
      unfold encodeWindows Encoder.emitHdr
      simp only [List.length_append, List.length_cons]
      omega

/-- A file of the encoder means the input of its windows, one behind the other: for whatever
matches and parts of the source, with an application header and checksums or without. -/
theorem vcdiff_encode_windows {ps : List Piece} (hne : ps ≠ [])
    (happ : ∀ data, encAppheader = some data → data.length + 1 < 2 ^ 32)
    (hpieces : ∀ p ∈ ps, p.Encodable source blksize)
    (htotal : (ps.flatMap Piece.nextIn).length < 2 ^ 64) :
    vcdiff blksize source (encodeWindows encAppheader useAdler32 0 ps) =
      some (ps.flatMap Piece.nextIn) := by
  obtain ⟨p, ps, rfl⟩ := List.exists_cons_of_ne_nil hne
  have hwindows : windows blksize source
      (encodeWindows encAppheader useAdler32 1 (p :: ps)).length 0
      (encodeWindows encAppheader useAdler32 1 (p :: ps)) = some ((p :: ps).flatMap Piece.nextIn) :=
    windows_encode_windows (length_encode_windows 1) one_ne_zero hpieces (by rwa [Nat.zero_add])
  rw [encode_windows_first]
  unfold vcdiff
  rw [header_emit_file_hdr happ]
  exact hwindows

/-- Three bytes and a copy of four from the source. -/
def addCopyPiece : Piece where
  nextIn := [97, 98, 99, 2, 3, 4, 5]
  src := some ⟨2, 4⟩
  insts := [{ type := .cpy 0, xtra := 1, pos := 3, size := 4, addr := 2 }]

/-- Seven bytes, of which the last four are copied. -/
theorem vcdiff_encode_windows_add_copy :
    vcdiff 8 [0, 1, 2, 3, 4, 5, 6, 7, 8, 9] (encodeWindows none true 0 [addCopyPiece]) =
      some [97, 98, 99, 2, 3, 4, 5] := by
  refine @vcdiff_encode_windows _ _ _ _ [addCopyPiece] (List.cons_ne_nil _ _)
    (fun data happ => by cases happ) (fun p hp => ?_) (by decide)
  rw [List.mem_singleton] at hp
  subst hp
  refine ⟨fun inst hmem => ?_, ⟨by decide, trivial⟩, fun w hw => ?_, by decide, by decide,
    by decide⟩
  · rw [List.mem_singleton.1 hmem]
    exact .source rfl (by decide) (by decide) rfl (by decide) (by decide) (by decide) rfl
  · cases hw
    decide

end NamelessCenter.Vcdiff
