import NamelessCenter.Lib.Bytes

/-!
# The packed ZIP structures of zipadjust.c

Each `#pragma pack(1)` structure is a record with the field widths of the C declaration, an
`encode` that lays the fields out in order and a `decode` that reads them back from the bytes of a
buffer. `decode_encode` says that a structure written to a file is the structure read from it.
-/

namespace NamelessCenter.Zip

open Bytes

/-- The signature of a local header. -/
def MAGIC_LOCAL_HEADER : UInt32 := 0x04034b50

/-- The signature of a central header. -/
def MAGIC_CENTRAL_HEADER : UInt32 := 0x02014b50

/-- The signature of the end record. -/
def MAGIC_CENTRAL_FOOTER : UInt32 := 0x06054b50

/-- `local_header_t`, 30 bytes. -/
structure LocalHeader where
  signature : UInt32
  extractVersion : UInt16
  flags : UInt16
  compressionMethod : UInt16
  lastModifiedTime : UInt16
  lastModifiedDate : UInt16
  crc32 : UInt32
  sizeCompressed : UInt32
  sizeUncompressed : UInt32
  lengthFilename : UInt16
  lengthExtra : UInt16
  deriving DecidableEq, Repr

/-- `central_header_t`, 46 bytes. -/
structure CentralHeader where
  signature : UInt32
  versionMade : UInt16
  versionNeeded : UInt16
  flags : UInt16
  compressionMethod : UInt16
  lastModifiedTime : UInt16
  lastModifiedDate : UInt16
  crc32 : UInt32
  sizeCompressed : UInt32
  sizeUncompressed : UInt32
  lengthFilename : UInt16
  lengthExtra : UInt16
  lengthComment : UInt16
  diskStart : UInt16
  attrInternal : UInt16
  attrExternal : UInt32
  offset : UInt32
  deriving DecidableEq, Repr

/-- `central_footer_t`, 22 bytes. -/
structure CentralFooter where
  signature : UInt32
  diskNumber : UInt16
  diskNumberCentralDirectory : UInt16
  centralDirectoryEntriesThisDisk : UInt16
  centralDirectoryEntriesTotal : UInt16
  centralDirectorySize : UInt32
  centralDirectoryOffset : UInt32
  lengthComment : UInt16
  deriving DecidableEq, Repr

/-! ## Local headers -/

namespace LocalHeader

/-- The bytes of a local header. -/
def encode (h : LocalHeader) : Bytes :=
  le32 h.signature ++ (le16 h.extractVersion ++ (le16 h.flags ++ (le16 h.compressionMethod ++
    (le16 h.lastModifiedTime ++ (le16 h.lastModifiedDate ++ (le32 h.crc32 ++
    (le32 h.sizeCompressed ++ (le32 h.sizeUncompressed ++ (le16 h.lengthFilename ++
    le16 h.lengthExtra)))))))))

/-- The local header at the start of some bytes. -/
def decode (bs : Bytes) : LocalHeader where
  signature := u32At bs 0
  extractVersion := u16At bs 4
  flags := u16At bs 6
  compressionMethod := u16At bs 8
  lastModifiedTime := u16At bs 10
  lastModifiedDate := u16At bs 12
  crc32 := u32At bs 14
  sizeCompressed := u32At bs 18
  sizeUncompressed := u32At bs 22
  lengthFilename := u16At bs 26
  lengthExtra := u16At bs 28

/-- A local header has 30 bytes. -/
@[simp] theorem length_encode (h : LocalHeader) : h.encode.length = 30 := by
  simp [encode]

/-- A local header is not empty. -/
theorem encode_ne_nil (h : LocalHeader) : h.encode ≠ [] := by
  intro hnil
  simpa using congrArg List.length hnil

/-- A local header is read as it was written, whatever follows it. -/
theorem decode_encode_append (h : LocalHeader) (rest : Bytes) :
    decode (h.encode ++ rest) = h := by
  simp (disch := simp) [decode, encode, List.append_assoc, u16_at_append_right,
    u32_at_append_right, u16_at_le16, u32_at_le32]

/-- A local header is read as it was written. -/
theorem decode_encode (h : LocalHeader) : decode h.encode = h := by
  simpa using decode_encode_append h []

/-- The signature is the first field. -/
theorem signature_decode_drop (x : Bytes) (pos : Nat) :
    (decode (x.drop pos)).signature = u32At x pos := by
  show u32At (x.drop pos) 0 = u32At x pos
  rw [u32_at_drop, Nat.add_zero]

end LocalHeader

/-! ## Central headers -/

namespace CentralHeader

/-- The bytes of a central header. -/
def encode (h : CentralHeader) : Bytes :=
  le32 h.signature ++ (le16 h.versionMade ++ (le16 h.versionNeeded ++ (le16 h.flags ++
    (le16 h.compressionMethod ++ (le16 h.lastModifiedTime ++ (le16 h.lastModifiedDate ++
    (le32 h.crc32 ++ (le32 h.sizeCompressed ++ (le32 h.sizeUncompressed ++
    (le16 h.lengthFilename ++ (le16 h.lengthExtra ++ (le16 h.lengthComment ++
    (le16 h.diskStart ++ (le16 h.attrInternal ++ (le32 h.attrExternal ++
    le32 h.offset)))))))))))))))

/-- The central header at the start of some bytes. -/
def decode (bs : Bytes) : CentralHeader where
  signature := u32At bs 0
  versionMade := u16At bs 4
  versionNeeded := u16At bs 6
  flags := u16At bs 8
  compressionMethod := u16At bs 10
  lastModifiedTime := u16At bs 12
  lastModifiedDate := u16At bs 14
  crc32 := u32At bs 16
  sizeCompressed := u32At bs 20
  sizeUncompressed := u32At bs 24
  lengthFilename := u16At bs 28
  lengthExtra := u16At bs 30
  lengthComment := u16At bs 32
  diskStart := u16At bs 34
  attrInternal := u16At bs 36
  attrExternal := u32At bs 38
  offset := u32At bs 42

/-- A central header has 46 bytes. -/
@[simp] theorem length_encode (h : CentralHeader) : h.encode.length = 46 := by
  simp [encode]

/-- A central header is not empty. -/
theorem encode_ne_nil (h : CentralHeader) : h.encode ≠ [] := by
  intro hnil
  simpa using congrArg List.length hnil

/-- A central header is read as it was written, whatever follows it. -/
theorem decode_encode_append (h : CentralHeader) (rest : Bytes) :
    decode (h.encode ++ rest) = h := by
  simp (disch := simp) [decode, encode, List.append_assoc, u16_at_append_right,
    u32_at_append_right, u16_at_le16, u32_at_le32]

/-- A central header is read as it was written. -/
theorem decode_encode (h : CentralHeader) : decode h.encode = h := by
  simpa using decode_encode_append h []

/-- The signature is the first field here, too. -/
theorem signature_decode_drop (x : Bytes) (pos : Nat) :
    (decode (x.drop pos)).signature = u32At x pos := by
  show u32At (x.drop pos) 0 = u32At x pos
  rw [u32_at_drop, Nat.add_zero]

/-- The signature is the first field, so four bytes decide it. -/
theorem u32_at_encode_append (h : CentralHeader) (rest : Bytes) :
    u32At (h.encode ++ rest) 0 = h.signature :=
  congrArg CentralHeader.signature (decode_encode_append h rest)

end CentralHeader

/-! ## End records -/

namespace CentralFooter

/-- The bytes of an end record. -/
def encode (f : CentralFooter) : Bytes :=
  le32 f.signature ++ (le16 f.diskNumber ++ (le16 f.diskNumberCentralDirectory ++
    (le16 f.centralDirectoryEntriesThisDisk ++ (le16 f.centralDirectoryEntriesTotal ++
    (le32 f.centralDirectorySize ++ (le32 f.centralDirectoryOffset ++
    le16 f.lengthComment))))))

/-- The end record at the start of some bytes. -/
def decode (bs : Bytes) : CentralFooter where
  signature := u32At bs 0
  diskNumber := u16At bs 4
  diskNumberCentralDirectory := u16At bs 6
  centralDirectoryEntriesThisDisk := u16At bs 8
  centralDirectoryEntriesTotal := u16At bs 10
  centralDirectorySize := u32At bs 12
  centralDirectoryOffset := u32At bs 16
  lengthComment := u16At bs 20

/-- An end record has 22 bytes. -/
@[simp] theorem length_encode (f : CentralFooter) : f.encode.length = 22 := by
  simp [encode]

/-- An end record is not empty. -/
theorem encode_ne_nil (f : CentralFooter) : f.encode ≠ [] := by
  intro hnil
  simpa using congrArg List.length hnil

/-- An end record is read as it was written, whatever follows it. -/
theorem decode_encode_append (f : CentralFooter) (rest : Bytes) :
    decode (f.encode ++ rest) = f := by
  simp (disch := simp) [decode, encode, List.append_assoc, u16_at_append_right,
    u32_at_append_right, u16_at_le16, u32_at_le32]

/-- An end record is read as it was written. -/
theorem decode_encode (f : CentralFooter) : decode f.encode = f := by
  simpa using decode_encode_append f []

/-- The comment length is the last field, so replacing the last two bytes sets it. -/
theorem take_encode_append (f : CentralFooter) (n : UInt16) :
    f.encode.take 20 ++ le16 n = encode { f with lengthComment := n } := by
  have hsplit : ∀ m : UInt16, encode { f with lengthComment := m } =
      (le32 f.signature ++ (le16 f.diskNumber ++ (le16 f.diskNumberCentralDirectory ++
        (le16 f.centralDirectoryEntriesThisDisk ++ (le16 f.centralDirectoryEntriesTotal ++
        (le32 f.centralDirectorySize ++ le32 f.centralDirectoryOffset)))))) ++ le16 m := by
    intro m
    simp only [encode, List.append_assoc]
  have hself : f.encode = _ := hsplit f.lengthComment
  rw [hsplit n, hself, List.take_left' (by simp)]

/-- The signature is the first field, so four bytes decide it. -/
theorem u32_at_encode_append (f : CentralFooter) (rest : Bytes) :
    u32At (f.encode ++ rest) 0 = f.signature :=
  congrArg CentralFooter.signature (decode_encode_append f rest)

end CentralFooter

/-! ## Small archives -/

/-- A member of an archive: its name, its two extra fields, and its data as stored. -/
structure Member where
  name : Bytes
  localExtra : Bytes
  centralExtra : Bytes
  method : UInt16
  crc32 : UInt32
  sizeUncompressed : Nat
  data : Bytes

namespace Member

/-- The local header of a member. -/
def localHeader (m : Member) : LocalHeader :=
  ⟨MAGIC_LOCAL_HEADER, 20, 0, m.method, 0, 0, m.crc32, UInt32.ofNat m.data.length,
    UInt32.ofNat m.sizeUncompressed, UInt16.ofNat m.name.length, UInt16.ofNat m.localExtra.length⟩

/-- The central header of a member. -/
def centralHeader (m : Member) : CentralHeader :=
  ⟨MAGIC_CENTRAL_HEADER, 20, 20, 0, m.method, 0, 0, m.crc32, UInt32.ofNat m.data.length,
    UInt32.ofNat m.sizeUncompressed, UInt16.ofNat m.name.length, UInt16.ofNat m.centralExtra.length,
    0, 0, 0, 0, 0⟩

/-- The region of a member. -/
def region (m : Member) : Bytes := m.localHeader.encode ++ m.name ++ m.localExtra ++ m.data

/-- The directory of members whose regions start at `offset`. -/
def records : Nat → List Member → Bytes
  | _, [] => []
  | offset, m :: ms =>
      CentralHeader.encode { m.centralHeader with offset := UInt32.ofNat offset } ++ m.name ++
        m.centralExtra ++ records (offset + m.region.length) ms

/-- The archive with the given members and the given archive comment. -/
def archiveOf (ms : List Member) (comment : Bytes) : Bytes :=
  let regions := ms.flatMap region
  let directory := records 0 ms
  let footer : CentralFooter := ⟨MAGIC_CENTRAL_FOOTER, 0, 0, UInt16.ofNat ms.length,
    UInt16.ofNat ms.length, UInt32.ofNat directory.length, UInt32.ofNat regions.length,
    UInt16.ofNat comment.length⟩
  regions ++ directory ++ footer.encode ++ comment

/-- The archive whose only member is `m`. -/
def archive (m : Member) : Bytes :=
  let region := m.localHeader.encode ++ m.name ++ m.localExtra ++ m.data
  let directory := m.centralHeader.encode ++ m.name ++ m.centralExtra
  let footer : CentralFooter := ⟨MAGIC_CENTRAL_FOOTER, 0, 0, 1, 1, UInt32.ofNat directory.length,
    UInt32.ofNat region.length, 0⟩
  region ++ directory ++ footer.encode

end Member

/-- An archive with the deflated member `a`, whose content is `hi`. -/
def deflatedHi : Bytes :=
  Member.archive ⟨[0x61], [], [], 8, 0xd8932aac, 2, [1, 2, 0, 0xfd, 0xff, 0x68, 0x69]⟩

/-- The same archive with the member stored. -/
def storedHi : Bytes := Member.archive ⟨[0x61], [], [], 0, 0xd8932aac, 2, [0x68, 0x69]⟩

/-- An archive comment that holds an end record, whose directory offset is 0. -/
def recordComment : Bytes := [0x50, 0x4b, 5, 6] ++ List.replicate 16 0 ++ [1, 0]

/-- An archive with the deflated member `a`, which has extra fields, the stored member `b` and the
comment `recordComment`. -/
def deflatedPair : Bytes :=
  Member.archiveOf
    [⟨[0x61], [0xfe, 0xca, 0, 0], [0xfe, 0xca, 0, 0], 8, 0xd8932aac, 2,
      [1, 2, 0, 0xfd, 0xff, 0x68, 0x69]⟩,
      ⟨[0x62], [], [], 0, 0x79dcdd47, 2, [0x6f, 0x6b]⟩] recordComment

/-- The central headers of `deflatedPair`. -/
def pairHeaders : List CentralHeader :=
  [CentralHeader.decode (deflatedPair.drop 75), CentralHeader.decode (deflatedPair.drop 126)]

/-- The same members, both stored and without extra fields. -/
def storedPair : Bytes :=
  Member.archiveOf [⟨[0x61], [], [], 0, 0xd8932aac, 2, [0x68, 0x69]⟩,
    ⟨[0x62], [], [], 0, 0x79dcdd47, 2, [0x6f, 0x6b]⟩] []

end NamelessCenter.Zip
