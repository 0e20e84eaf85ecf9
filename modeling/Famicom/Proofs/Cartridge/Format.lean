import Mathlib.Data.Nat.Basic
import Famicom.Cartridge.Image

/-!
# The image format

What `Image.parse` accepts is stated without its control flow. An image has six requirements to
meet, each with the reason to refuse the bytes that do not meet it; the order of the list is their
precedence. Reading bytes is then one equation: the first unmet requirement gives the error, and
where there is none the image is `imageOf bytes`, which cuts the payload at the offsets that the
chunk counts give.

The other way round, a `Layout` is a choice of everything the format leaves open, with the lengths
of its payloads built in. Its encoding meets every requirement, and the image cut from it is the one
the layout describes, whatever bytes follow.
-/

namespace Famicom.Image

/-- The value of the byte at a place; nothing is there beyond the end. -/
def byteAt (bytes : Array UInt8) (i : Nat) : Nat := bytes[i]?.elim 0 UInt8.toNat

/-- The length that the chunk counts of a header call for. -/
def payloadEnd (bytes : Array UInt8) : Nat :=
  16 + 16384 * byteAt bytes 4 + 8192 * byteAt bytes 5

/-! ## Requirements -/

/-- A requirement on the bytes of an image, and the reason to refuse bytes that do not meet it. -/
structure Requirement where
  met : Bool
  reason : CartridgeError

/-- What the bytes of an image have to meet, in the order in which it is looked at. -/
def requirements (bytes : Array UInt8) : List Requirement :=
  [⟨16 ≤ bytes.size, .truncated 16 bytes.size⟩,
   ⟨bytes.extract 0 4 = #[0x4e, 0x45, 0x53, 0x1a], .invalidMagic⟩,
   ⟨byteAt bytes 6 / 4 % 2 = 0, .trainerUnsupported⟩,
   ⟨byteAt bytes 7 / 4 % 4 ≠ 2, .nes2Unsupported⟩,
   ⟨byteAt bytes 7 % 4 = 0, .unsupportedConsole (byteAt bytes 7 % 4)⟩,
   ⟨payloadEnd bytes ≤ bytes.size, .truncated (payloadEnd bytes) bytes.size⟩]

/-- The reason of the first requirement that is not met. -/
def refusal? (bytes : Array UInt8) : Option CartridgeError :=
  ((requirements bytes).find? (!·.met)).map (·.reason)

/-- The arrangement that the header asks for. -/
def mirroringOf (bytes : Array UInt8) : Mirroring :=
  if byteAt bytes 6 / 8 % 2 = 1 then .fourScreen
  else if byteAt bytes 6 % 2 = 1 then .vertical
  else .horizontal

/-- The image that the bytes hold, the payload cut at the offsets that the header gives. -/
def imageOf (bytes : Array UInt8) : Image where
  program := bytes.extract 16 (16 + 16384 * byteAt bytes 4)
  patterns := bytes.extract (16 + 16384 * byteAt bytes 4) (payloadEnd bytes)
  mirroring := mirroringOf bytes
  hasWorkRam := byteAt bytes 6 / 2 % 2 = 1
  mapper := byteAt bytes 6 / 16 + byteAt bytes 7 / 16 * 16

theorem byteAt_of_lt {bytes : Array UInt8} {i : Nat} (h : i < bytes.size) :
    byteAt bytes i = bytes[i].toNat := by
  simp [byteAt, h]

theorem byteAt_lt (bytes : Array UInt8) (i : Nat) : byteAt bytes i < 256 := by
  rw [byteAt]
  cases bytes[i]? with
  | none => exact Nat.zero_lt_succ _
  | some byte => exact byte.toNat_lt

theorem bit_eq_decide (b : UInt8) (i : Nat) : bit b i = decide (b.toNat >>> i % 2 = 1) := by
  rw [Nat.shiftRight_eq_div_pow]
  exact Nat.testBit_eq_decide_div_mod_eq

section Header

variable {bytes : Array UInt8} (long : headerSize ≤ bytes.size)

theorem imageSize_readHeader : (readHeader bytes long).imageSize = payloadEnd bytes := by
  have size : 16 ≤ bytes.size := long
  rw [payloadEnd, byteAt_of_lt (i := 4) (by omega), byteAt_of_lt (i := 5) (by omega)]
  simp only [readHeader, Header.imageSize, Header.programSize, Header.patternSize, headerSize,
    programChunk, patternChunk]
  omega

theorem hasTrainer_readHeader :
    (readHeader bytes long).hasTrainer = !decide (byteAt bytes 6 / 4 % 2 = 0) := by
  have size : 16 ≤ bytes.size := long
  rw [byteAt_of_lt (i := 6) (by omega)]
  simp only [readHeader, Header.hasTrainer, bit_eq_decide, ← decide_not, decide_eq_decide]
  omega

/-- Of the two format bits, the upper one is set and the lower one is not. -/
theorem isVersion2_readHeader :
    (readHeader bytes long).isVersion2 = decide (byteAt bytes 7 / 4 % 4 = 2) := by
  have size : 16 ≤ bytes.size := long
  rw [byteAt_of_lt (i := 7) (by omega)]
  simp only [readHeader, Header.isVersion2, bit_eq_decide, ← Bool.decide_and, ← decide_not,
    decide_eq_decide]
  omega

theorem consoleKind_readHeader : (readHeader bytes long).consoleKind = byteAt bytes 7 % 4 := by
  have size : 16 ≤ bytes.size := long
  rw [byteAt_of_lt (i := 7) (by omega)]
  rfl

/-- The image read through the header is the one cut out by value. -/
theorem imageOf_eq :
    imageOf bytes = {
      program := bytes.extract headerSize (headerSize + (readHeader bytes long).programSize)
      patterns := bytes.extract (headerSize + (readHeader bytes long).programSize)
        (readHeader bytes long).imageSize
      mirroring := (readHeader bytes long).mirroring
      hasWorkRam := (readHeader bytes long).hasWorkRam
      mapper := (readHeader bytes long).mapper } := by
  have size : 16 ≤ bytes.size := long
  have programEnd : headerSize + (readHeader bytes long).programSize
      = 16 + 16384 * byteAt bytes 4 := by
    rw [byteAt_of_lt (i := 4) (by omega)]
    simp only [readHeader, Header.programSize, headerSize, programChunk]
    omega
  have flags6 : byteAt bytes 6 = bytes[6].toNat := byteAt_of_lt (by omega)
  have flags7 : byteAt bytes 7 = bytes[7].toNat := byteAt_of_lt (by omega)
  rw [imageSize_readHeader, programEnd]
  simp [imageOf, mirroringOf, readHeader, headerSize, Header.mirroring, Header.isFourScreen,
    Header.hasWorkRam, Header.mapper, bit_eq_decide, Nat.shiftRight_eq_div_pow, flags6, flags7]

end Header

/-- Reading bytes, without its control flow: the first unmet requirement refuses them. -/
theorem parse_eq (bytes : Array UInt8) :
    parse bytes = (refusal? bytes).elim (.ok (imageOf bytes)) .error := by
  rw [parse]
  split
  case isFalse short =>
    have unmet : decide (16 ≤ bytes.size) = false := decide_eq_false short
    simp [refusal?, requirements, unmet, headerSize]
  case isTrue long =>
    have met : decide (16 ≤ bytes.size) = true := decide_eq_true long
    rw [imageOf_eq long]
    simp only [hasTrainer_readHeader, isVersion2_readHeader, consoleKind_readHeader,
      imageSize_readHeader, magic, refusal?, requirements, List.find?_cons, met]
    by_cases magical : bytes.extract 0 4 = #[0x4e, 0x45, 0x53, 0x1a]
    · by_cases trainer : byteAt bytes 6 / 4 % 2 = 0
      · by_cases version : byteAt bytes 7 / 4 % 4 = 2
        · simp [magical, trainer, version]
        · by_cases console : byteAt bytes 7 % 4 = 0
          · by_cases payload : payloadEnd bytes ≤ bytes.size <;>
              simp [magical, trainer, version, console, payload]
          · simp [magical, trainer, version, console]
      · simp [magical, trainer]
    · simp [magical]

theorem refusal?_eq_none {bytes : Array UInt8} :
    refusal? bytes = none ↔ ∀ r ∈ requirements bytes, r.met := by
  simp [refusal?]

theorem parse_eq_ok {bytes : Array UInt8} {image : Image} :
    parse bytes = .ok image ↔ (∀ r ∈ requirements bytes, r.met) ∧ imageOf bytes = image := by
  rw [parse_eq, ← refusal?_eq_none]
  cases refusal? bytes <;> simp

theorem parse_eq_error {bytes : Array UInt8} {e : CartridgeError} :
    parse bytes = .error e ↔ refusal? bytes = some e := by
  rw [parse_eq]
  cases refusal? bytes <;> simp

theorem forall_requirements {bytes : Array UInt8} :
    (∀ r ∈ requirements bytes, r.met) ↔
      16 ≤ bytes.size ∧ bytes.extract 0 4 = #[0x4e, 0x45, 0x53, 0x1a] ∧
      byteAt bytes 6 / 4 % 2 = 0 ∧ byteAt bytes 7 / 4 % 4 ≠ 2 ∧ byteAt bytes 7 % 4 = 0 ∧
      payloadEnd bytes ≤ bytes.size := by
  simp [requirements]

/-- The payloads have the sizes that the chunk counts give. -/
theorem size_of_parse {bytes : Array UInt8} {image : Image} (h : parse bytes = .ok image) :
    image.program.size = 0x4000 * byteAt bytes 4 ∧
      image.patterns.size = 0x2000 * byteAt bytes 5 := by
  obtain ⟨met, rfl⟩ := parse_eq_ok.mp h
  obtain ⟨-, -, -, -, -, payload⟩ := forall_requirements.mp met
  rw [payloadEnd] at payload
  simp only [imageOf, payloadEnd, Array.size_extract]
  omega

/-! ## Bytes after the end -/

section Trailing

variable {bytes : Array UInt8} (trailing : Array UInt8)

theorem byteAt_append {i : Nat} (h : i < bytes.size) :
    byteAt (bytes ++ trailing) i = byteAt bytes i := by
  rw [byteAt, byteAt, Array.getElem?_append_left h]

theorem extract_append_of_le {start stop : Nat} (h : stop ≤ bytes.size) :
    (bytes ++ trailing).extract start stop = bytes.extract start stop := by
  have none : trailing.extract (start - bytes.size) (stop - bytes.size) = #[] :=
    Array.extract_empty_of_stop_le_start (by omega)
  rw [Array.extract_append, none, Array.append_empty]

theorem payloadEnd_append (long : 16 ≤ bytes.size) :
    payloadEnd (bytes ++ trailing) = payloadEnd bytes := by
  rw [payloadEnd, byteAt_append trailing (by omega), byteAt_append trailing (by omega), payloadEnd]

theorem imageOf_append (long : 16 ≤ bytes.size) (payload : payloadEnd bytes ≤ bytes.size) :
    imageOf (bytes ++ trailing) = imageOf bytes := by
  have programEnd : 16 + 16384 * byteAt bytes 4 ≤ bytes.size := by
    rw [payloadEnd] at payload
    omega
  simp only [imageOf, mirroringOf, payloadEnd_append trailing long,
    byteAt_append trailing (show 4 < bytes.size by omega),
    byteAt_append trailing (show 6 < bytes.size by omega),
    byteAt_append trailing (show 7 < bytes.size by omega),
    extract_append_of_le trailing programEnd, extract_append_of_le trailing payload]

/-- A successful reading looks at nothing after the payload. -/
theorem parse_append {image : Image} (h : parse bytes = .ok image) :
    parse (bytes ++ trailing) = .ok image := by
  obtain ⟨met, rfl⟩ := parse_eq_ok.mp h
  obtain ⟨long, magical, trainer, version, console, payload⟩ := forall_requirements.mp met
  refine parse_eq_ok.mpr ⟨forall_requirements.mpr ⟨?_, ?_, ?_, ?_, ?_, ?_⟩,
    imageOf_append trailing long payload⟩
  · rw [Array.size_append]
    omega
  · rwa [extract_append_of_le trailing (by omega)]
  · rwa [byteAt_append trailing (by omega)]
  · rwa [byteAt_append trailing (by omega)]
  · rwa [byteAt_append trailing (by omega)]
  · rw [payloadEnd_append trailing long, Array.size_append]
    omega

end Trailing

/-! ## Encoding -/

/-- Everything the format leaves open. The format bits may have any value but that of the second
version, and the last eight bytes of the header are not looked at. -/
structure Layout where
  programChunks : UInt8
  patternChunks : UInt8
  program : Array UInt8
  patterns : Array UInt8
  size_program : program.size = programChunks.toNat * 0x4000
  size_patterns : patterns.size = patternChunks.toNat * 0x2000
  mapper : UInt8
  isVertical : Bool
  hasWorkRam : Bool
  isFourScreen : Bool
  version : Fin 4
  version_ne : version ≠ 2
  unused : Vector UInt8 8

namespace Layout

/-- The flag byte with the lower half of the mapper number. -/
def flags6 (l : Layout) : UInt8 :=
  UInt8.ofNat (l.isVertical.toNat + 2 * l.hasWorkRam.toNat + 8 * l.isFourScreen.toNat
    + 16 * (l.mapper.toNat % 16))

/-- The flag byte with the upper half of the mapper number. -/
def flags7 (l : Layout) : UInt8 :=
  UInt8.ofNat (4 * l.version.val + 16 * (l.mapper.toNat / 16))

/-- The header of a layout. -/
def header (l : Layout) : Array UInt8 :=
  #[0x4e, 0x45, 0x53, 0x1a, l.programChunks, l.patternChunks, l.flags6, l.flags7]
    ++ l.unused.toArray

/-- The bytes of a layout: its header, its program and its patterns. -/
def encode (l : Layout) : Array UInt8 := l.header ++ l.program ++ l.patterns

/-- The image a layout describes. -/
def image (l : Layout) : Image where
  program := l.program
  patterns := l.patterns
  mirroring :=
    if l.isFourScreen then .fourScreen else if l.isVertical then .vertical else .horizontal
  hasWorkRam := l.hasWorkRam
  mapper := l.mapper.toNat

variable (l : Layout)

theorem toNat_flags6 : l.flags6.toNat = l.isVertical.toNat + 2 * l.hasWorkRam.toNat
    + 8 * l.isFourScreen.toNat + 16 * (l.mapper.toNat % 16) := by
  have vertical := l.isVertical.toNat_le
  have workRam := l.hasWorkRam.toNat_le
  have fourScreen := l.isFourScreen.toNat_le
  rw [flags6, UInt8.toNat_ofNat']
  omega

theorem toNat_flags7 : l.flags7.toNat = 4 * l.version.val + 16 * (l.mapper.toNat / 16) := by
  have version := l.version.isLt
  have mapper := l.mapper.toNat_lt
  rw [flags7, UInt8.toNat_ofNat']
  omega

theorem size_header : l.header.size = 16 := by
  simp [header]

theorem size_encode :
    l.encode.size = 16 + 16384 * l.programChunks.toNat + 8192 * l.patternChunks.toNat := by
  simp only [encode, Array.size_append, l.size_header, l.size_program, l.size_patterns]
  omega

/-- The first half of the header decides everything but the payloads. -/
theorem byteAt_encode {i : Nat} (h : i < 8) :
    byteAt l.encode i = byteAt #[0x4e, 0x45, 0x53, 0x1a, l.programChunks, l.patternChunks,
      l.flags6, l.flags7] i := by
  have inHeader : i < l.header.size := by
    rw [l.size_header]
    omega
  rw [encode, byteAt_append, byteAt_append _ inHeader, header, byteAt_append _ (by simpa using h)]
  rw [Array.size_append]
  omega

theorem payloadEnd_encode : payloadEnd l.encode = l.encode.size := by
  rw [l.size_encode, payloadEnd, l.byteAt_encode (by decide), l.byteAt_encode (by decide)]
  rfl

theorem program_encode :
    l.encode.extract 16 (16 + 16384 * byteAt l.encode 4) = l.program := by
  have count : 16 + 16384 * byteAt l.encode 4 = (l.header ++ l.program).size := by
    rw [l.byteAt_encode (by decide), Array.size_append, l.size_header, l.size_program]
    exact congrArg (16 + ·) (Nat.mul_comm ..)
  rw [count, encode, extract_append_of_le _ le_rfl, Array.extract_append, l.size_header]
  simp [l.size_header]

theorem patterns_encode :
    l.encode.extract (16 + 16384 * byteAt l.encode 4) (payloadEnd l.encode) = l.patterns := by
  have count : 16 + 16384 * byteAt l.encode 4 = (l.header ++ l.program).size := by
    rw [l.byteAt_encode (by decide), Array.size_append, l.size_header, l.size_program]
    exact congrArg (16 + ·) (Nat.mul_comm ..)
  rw [count, l.payloadEnd_encode, encode, Array.extract_append,
    Array.extract_empty_of_size_le_start le_rfl, Array.empty_append, Nat.sub_self]
  refine Array.extract_eq_self_of_le ?_
  rw [Array.size_append]
  omega

theorem imageOf_encode : imageOf l.encode = l.image := by
  have flags6 : byteAt l.encode 6 = l.flags6.toNat := l.byteAt_encode (by decide)
  have flags7 : byteAt l.encode 7 = l.flags7.toNat := l.byteAt_encode (by decide)
  have mapper := l.mapper.toNat_lt
  have version := l.version.isLt
  have parts : byteAt l.encode 6 % 2 = l.isVertical.toNat ∧
      byteAt l.encode 6 / 2 % 2 = l.hasWorkRam.toNat ∧
      byteAt l.encode 6 / 8 % 2 = l.isFourScreen.toNat ∧
      byteAt l.encode 6 / 16 + byteAt l.encode 7 / 16 * 16 = l.mapper.toNat := by
    have vertical := l.isVertical.toNat_le
    have workRam := l.hasWorkRam.toNat_le
    have fourScreen := l.isFourScreen.toNat_le
    rw [flags6, flags7, l.toNat_flags6, l.toNat_flags7]
    omega
  obtain ⟨vertical, workRam, fourScreen, number⟩ := parts
  rw [imageOf, mirroringOf, l.program_encode, l.patterns_encode, vertical, workRam, fourScreen,
    number, image]
  simp

theorem parse_encode : parse l.encode = .ok l.image := by
  refine parse_eq_ok.mpr ⟨forall_requirements.mpr ⟨?long, ?magic, ?trainer, ?version, ?console,
    le_of_eq l.payloadEnd_encode⟩, l.imageOf_encode⟩
  case long =>
    rw [l.size_encode]
    omega
  case magic =>
    have inHeader : 4 ≤ l.header.size := by
      rw [l.size_header]
      omega
    rw [encode, Array.append_assoc, extract_append_of_le _ inHeader, header,
      extract_append_of_le _ (by simp)]
    rfl
  case trainer =>
    have vertical := l.isVertical.toNat_le
    have workRam := l.hasWorkRam.toNat_le
    rw [show byteAt l.encode 6 = l.flags6.toNat from l.byteAt_encode (by decide), l.toNat_flags6]
    omega
  case version =>
    have version := l.version.isLt
    have other : l.version.val ≠ 2 := fun h ↦ l.version_ne (Fin.ext h)
    rw [show byteAt l.encode 7 = l.flags7.toNat from l.byteAt_encode (by decide), l.toNat_flags7]
    omega
  case console =>
    rw [show byteAt l.encode 7 = l.flags7.toNat from l.byteAt_encode (by decide), l.toNat_flags7]
    omega

end Layout

/-- The reader accepts exactly the format, refuses anything else for its first fault, undoes the
encoding whatever follows, and is not moved by bytes appended to what it accepts. -/
theorem parse_exact :
    (∀ bytes, (∃ image, parse bytes = .ok image) ↔
      16 ≤ bytes.size ∧ bytes.extract 0 4 = #[0x4e, 0x45, 0x53, 0x1a] ∧
      byteAt bytes 6 / 4 % 2 = 0 ∧ byteAt bytes 7 / 4 % 4 ≠ 2 ∧ byteAt bytes 7 % 4 = 0 ∧
      16 + 16384 * byteAt bytes 4 + 8192 * byteAt bytes 5 ≤ bytes.size) ∧
    (∀ bytes e, parse bytes = .error e ↔
      ((requirements bytes).find? (!·.met)).map (·.reason) = some e) ∧
    (∀ (l : Layout) trailing, parse (l.encode ++ trailing) = .ok l.image) ∧
    (∀ bytes image trailing, parse bytes = .ok image → parse (bytes ++ trailing) = .ok image) := by
  refine ⟨fun bytes ↦ ?_, fun bytes e ↦ parse_eq_error,
    fun l trailing ↦ parse_append trailing l.parse_encode,
    fun bytes image trailing ↦ parse_append trailing⟩
  rw [← payloadEnd, ← forall_requirements]
  constructor
  · rintro ⟨image, h⟩
    exact (parse_eq_ok.mp h).1
  · intro met
    exact ⟨imageOf bytes, parse_eq_ok.mpr ⟨met, rfl⟩⟩

/-- Three chunks of program, each filled with its number. -/
def numberedChunks : Array UInt8 :=
  Array.ofFn fun place : Fin 0xc000 ↦ UInt8.ofNat (place.val / 0x4000)

theorem getElem?_numberedChunks {place : Nat} (h : place < 0xc000) :
    numberedChunks[place]? = some (.ofNat (place / 0x4000)) := by
  simp [numberedChunks, h]

/-- A chunk of patterns that counts up. -/
def countedPatterns : Array UInt8 := Array.ofFn fun place : Fin 0x2000 ↦ UInt8.ofNat place.val

theorem getElem?_countedPatterns {place : Nat} (h : place < 0x2000) :
    countedPatterns[place]? = some (.ofNat place) := by
  simp [countedPatterns, h]

theorem low2_zero_ne_two : low2 0 ≠ 2 := by decide

/-- The layout of a UxROM cartridge with these chunks. -/
def numberedLayout : Layout where
  programChunks := 3
  patternChunks := 1
  program := numberedChunks
  patterns := countedPatterns
  size_program := Array.size_ofFn
  size_patterns := Array.size_ofFn
  mapper := 2
  isVertical := true
  hasWorkRam := false
  isFourScreen := false
  version := low2 0
  version_ne := low2_zero_ne_two
  unused := Vector.replicate 8 0

theorem program_numberedLayout : numberedLayout.image.program = numberedChunks := by
  simp only [Layout.image, numberedLayout]

theorem patterns_numberedLayout : numberedLayout.image.patterns = countedPatterns := by
  simp only [Layout.image, numberedLayout]

/-- Two bytes after it change nothing, and each chunk keeps its bytes. -/
theorem parse_exact_chunks :
    parse numberedLayout.encode = .ok numberedLayout.image ∧
      parse (numberedLayout.encode ++ #[0x60, 0x61]) = .ok numberedLayout.image ∧
      numberedLayout.image.program[0x8123]? = some 2 ∧
      numberedLayout.image.patterns[0x1234]? = some 0x34 := by
  obtain ⟨-, -, decodes, appends⟩ := parse_exact
  have accepted := decodes numberedLayout #[]
  rw [Array.append_empty] at accepted
  refine ⟨accepted, appends _ _ #[0x60, 0x61] accepted, ?_, ?_⟩
  · rw [program_numberedLayout, getElem?_numberedChunks (by decide)]
    rfl
  · rw [patterns_numberedLayout, getElem?_countedPatterns (by decide)]
    rfl

end Famicom.Image
