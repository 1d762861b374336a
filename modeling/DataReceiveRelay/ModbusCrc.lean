import DataReceiveRelay.ShiftRegister
import DataReceiveRelay.Words

/-!
# The checksum of a Modbus frame

`usMBCRC16` keeps the register in two bytes and takes the eight shifts of a byte
from two tables. The polynomial is x^16 + x^15 + x^2 + 1, low end first. The
sender appends the low byte before the high one, so a frame with its checksum
leaves zero.
-/

namespace DataReceiveRelay.ModbusCrc

open Words ShiftRegister

def aucCRCHi : List U8 :=
  [0x00#8, 0xC1#8, 0x81#8, 0x40#8, 0x01#8, 0xC0#8, 0x80#8, 0x41#8, 0x01#8, 0xC0#8, 0x80#8, 0x41#8,
    0x00#8, 0xC1#8, 0x81#8, 0x40#8, 0x01#8, 0xC0#8, 0x80#8, 0x41#8, 0x00#8, 0xC1#8, 0x81#8, 0x40#8,
    0x00#8, 0xC1#8, 0x81#8, 0x40#8, 0x01#8, 0xC0#8, 0x80#8, 0x41#8, 0x01#8, 0xC0#8, 0x80#8, 0x41#8,
    0x00#8, 0xC1#8, 0x81#8, 0x40#8, 0x00#8, 0xC1#8, 0x81#8, 0x40#8, 0x01#8, 0xC0#8, 0x80#8, 0x41#8,
    0x00#8, 0xC1#8, 0x81#8, 0x40#8, 0x01#8, 0xC0#8, 0x80#8, 0x41#8, 0x01#8, 0xC0#8, 0x80#8, 0x41#8,
    0x00#8, 0xC1#8, 0x81#8, 0x40#8, 0x01#8, 0xC0#8, 0x80#8, 0x41#8, 0x00#8, 0xC1#8, 0x81#8, 0x40#8,
    0x00#8, 0xC1#8, 0x81#8, 0x40#8, 0x01#8, 0xC0#8, 0x80#8, 0x41#8, 0x00#8, 0xC1#8, 0x81#8, 0x40#8,
    0x01#8, 0xC0#8, 0x80#8, 0x41#8, 0x01#8, 0xC0#8, 0x80#8, 0x41#8, 0x00#8, 0xC1#8, 0x81#8, 0x40#8,
    0x00#8, 0xC1#8, 0x81#8, 0x40#8, 0x01#8, 0xC0#8, 0x80#8, 0x41#8, 0x01#8, 0xC0#8, 0x80#8, 0x41#8,
    0x00#8, 0xC1#8, 0x81#8, 0x40#8, 0x01#8, 0xC0#8, 0x80#8, 0x41#8, 0x00#8, 0xC1#8, 0x81#8, 0x40#8,
    0x00#8, 0xC1#8, 0x81#8, 0x40#8, 0x01#8, 0xC0#8, 0x80#8, 0x41#8, 0x01#8, 0xC0#8, 0x80#8, 0x41#8,
    0x00#8, 0xC1#8, 0x81#8, 0x40#8, 0x00#8, 0xC1#8, 0x81#8, 0x40#8, 0x01#8, 0xC0#8, 0x80#8, 0x41#8,
    0x00#8, 0xC1#8, 0x81#8, 0x40#8, 0x01#8, 0xC0#8, 0x80#8, 0x41#8, 0x01#8, 0xC0#8, 0x80#8, 0x41#8,
    0x00#8, 0xC1#8, 0x81#8, 0x40#8, 0x00#8, 0xC1#8, 0x81#8, 0x40#8, 0x01#8, 0xC0#8, 0x80#8, 0x41#8,
    0x01#8, 0xC0#8, 0x80#8, 0x41#8, 0x00#8, 0xC1#8, 0x81#8, 0x40#8, 0x01#8, 0xC0#8, 0x80#8, 0x41#8,
    0x00#8, 0xC1#8, 0x81#8, 0x40#8, 0x00#8, 0xC1#8, 0x81#8, 0x40#8, 0x01#8, 0xC0#8, 0x80#8, 0x41#8,
    0x00#8, 0xC1#8, 0x81#8, 0x40#8, 0x01#8, 0xC0#8, 0x80#8, 0x41#8, 0x01#8, 0xC0#8, 0x80#8, 0x41#8,
    0x00#8, 0xC1#8, 0x81#8, 0x40#8, 0x01#8, 0xC0#8, 0x80#8, 0x41#8, 0x00#8, 0xC1#8, 0x81#8, 0x40#8,
    0x00#8, 0xC1#8, 0x81#8, 0x40#8, 0x01#8, 0xC0#8, 0x80#8, 0x41#8, 0x01#8, 0xC0#8, 0x80#8, 0x41#8,
    0x00#8, 0xC1#8, 0x81#8, 0x40#8, 0x00#8, 0xC1#8, 0x81#8, 0x40#8, 0x01#8, 0xC0#8, 0x80#8, 0x41#8,
    0x00#8, 0xC1#8, 0x81#8, 0x40#8, 0x01#8, 0xC0#8, 0x80#8, 0x41#8, 0x01#8, 0xC0#8, 0x80#8, 0x41#8,
    0x00#8, 0xC1#8, 0x81#8, 0x40#8]

def aucCRCLo : List U8 :=
  [0x00#8, 0xC0#8, 0xC1#8, 0x01#8, 0xC3#8, 0x03#8, 0x02#8, 0xC2#8, 0xC6#8, 0x06#8, 0x07#8, 0xC7#8,
    0x05#8, 0xC5#8, 0xC4#8, 0x04#8, 0xCC#8, 0x0C#8, 0x0D#8, 0xCD#8, 0x0F#8, 0xCF#8, 0xCE#8, 0x0E#8,
    0x0A#8, 0xCA#8, 0xCB#8, 0x0B#8, 0xC9#8, 0x09#8, 0x08#8, 0xC8#8, 0xD8#8, 0x18#8, 0x19#8, 0xD9#8,
    0x1B#8, 0xDB#8, 0xDA#8, 0x1A#8, 0x1E#8, 0xDE#8, 0xDF#8, 0x1F#8, 0xDD#8, 0x1D#8, 0x1C#8, 0xDC#8,
    0x14#8, 0xD4#8, 0xD5#8, 0x15#8, 0xD7#8, 0x17#8, 0x16#8, 0xD6#8, 0xD2#8, 0x12#8, 0x13#8, 0xD3#8,
    0x11#8, 0xD1#8, 0xD0#8, 0x10#8, 0xF0#8, 0x30#8, 0x31#8, 0xF1#8, 0x33#8, 0xF3#8, 0xF2#8, 0x32#8,
    0x36#8, 0xF6#8, 0xF7#8, 0x37#8, 0xF5#8, 0x35#8, 0x34#8, 0xF4#8, 0x3C#8, 0xFC#8, 0xFD#8, 0x3D#8,
    0xFF#8, 0x3F#8, 0x3E#8, 0xFE#8, 0xFA#8, 0x3A#8, 0x3B#8, 0xFB#8, 0x39#8, 0xF9#8, 0xF8#8, 0x38#8,
    0x28#8, 0xE8#8, 0xE9#8, 0x29#8, 0xEB#8, 0x2B#8, 0x2A#8, 0xEA#8, 0xEE#8, 0x2E#8, 0x2F#8, 0xEF#8,
    0x2D#8, 0xED#8, 0xEC#8, 0x2C#8, 0xE4#8, 0x24#8, 0x25#8, 0xE5#8, 0x27#8, 0xE7#8, 0xE6#8, 0x26#8,
    0x22#8, 0xE2#8, 0xE3#8, 0x23#8, 0xE1#8, 0x21#8, 0x20#8, 0xE0#8, 0xA0#8, 0x60#8, 0x61#8, 0xA1#8,
    0x63#8, 0xA3#8, 0xA2#8, 0x62#8, 0x66#8, 0xA6#8, 0xA7#8, 0x67#8, 0xA5#8, 0x65#8, 0x64#8, 0xA4#8,
    0x6C#8, 0xAC#8, 0xAD#8, 0x6D#8, 0xAF#8, 0x6F#8, 0x6E#8, 0xAE#8, 0xAA#8, 0x6A#8, 0x6B#8, 0xAB#8,
    0x69#8, 0xA9#8, 0xA8#8, 0x68#8, 0x78#8, 0xB8#8, 0xB9#8, 0x79#8, 0xBB#8, 0x7B#8, 0x7A#8, 0xBA#8,
    0xBE#8, 0x7E#8, 0x7F#8, 0xBF#8, 0x7D#8, 0xBD#8, 0xBC#8, 0x7C#8, 0xB4#8, 0x74#8, 0x75#8, 0xB5#8,
    0x77#8, 0xB7#8, 0xB6#8, 0x76#8, 0x72#8, 0xB2#8, 0xB3#8, 0x73#8, 0xB1#8, 0x71#8, 0x70#8, 0xB0#8,
    0x50#8, 0x90#8, 0x91#8, 0x51#8, 0x93#8, 0x53#8, 0x52#8, 0x92#8, 0x96#8, 0x56#8, 0x57#8, 0x97#8,
    0x55#8, 0x95#8, 0x94#8, 0x54#8, 0x9C#8, 0x5C#8, 0x5D#8, 0x9D#8, 0x5F#8, 0x9F#8, 0x9E#8, 0x5E#8,
    0x5A#8, 0x9A#8, 0x9B#8, 0x5B#8, 0x99#8, 0x59#8, 0x58#8, 0x98#8, 0x88#8, 0x48#8, 0x49#8, 0x89#8,
    0x4B#8, 0x8B#8, 0x8A#8, 0x4A#8, 0x4E#8, 0x8E#8, 0x8F#8, 0x4F#8, 0x8D#8, 0x4D#8, 0x4C#8, 0x8C#8,
    0x44#8, 0x84#8, 0x85#8, 0x45#8, 0x87#8, 0x47#8, 0x46#8, 0x86#8, 0x82#8, 0x42#8, 0x43#8, 0x83#8,
    0x41#8, 0x81#8, 0x80#8, 0x40#8]

/-- The loop of `usMBCRC16` over the rest of the frame. -/
def usMBCRC16Loop : Bytes → U8 → U8 → U16
  | [], ucCRCHi, ucCRCLo => (ucCRCHi.setWidth 16 <<< 8) ||| ucCRCLo.setWidth 16
  | c :: pucFrame, ucCRCHi, ucCRCLo =>
    usMBCRC16Loop pucFrame (aucCRCLo.getD (ucCRCLo ^^^ c).toNat 0#8)
      (ucCRCHi ^^^ aucCRCHi.getD (ucCRCLo ^^^ c).toNat 0#8)

def usMBCRC16 (pucFrame : Bytes) : U16 := usMBCRC16Loop pucFrame 0xFF#8 0xFF#8

/-- The polynomial without its leading term. -/
def polynomial : U16 := 0xA001#16

/-- The bits of a frame in the order of transmission. -/
def wireBits (frame : Bytes) : List Bool := frame.flatMap octetBits

/-- `ucCRCHi << 8 | ucCRCLo`. -/
def joinBytes (hi lo : U8) : U16 := (hi.setWidth 16 <<< 8) ||| lo.setWidth 16

theorem joinBytes_eq_append (hi lo : U8) : joinBytes hi lo = hi ++ lo := by
  apply BitVec.eq_of_getLsbD_eq
  intro i hi'
  rw [joinBytes, BitVec.getLsbD_append, BitVec.getLsbD_or, BitVec.getLsbD_shiftLeft, BitVec.getLsbD_setWidth,
    BitVec.getLsbD_setWidth]
  by_cases h : i < 8
  · simp [h, hi']
  · have hrest : i - 8 < 16 := by omega
    simp [h, hi', hrest, BitVec.getLsbD_of_ge lo i (by omega)]

@[simp] theorem joinBytes_low (hi lo : U8) : (joinBytes hi lo).setWidth 8 = lo := by
  rw [joinBytes_eq_append, BitVec.setWidth_append]
  simp

theorem joinBytes_high (hi lo : U8) : (joinBytes hi lo) >>> 8 = hi.setWidth 16 := by
  apply BitVec.eq_of_getLsbD_eq
  intro i hi'
  rw [joinBytes_eq_append, BitVec.getLsbD_ushiftRight, BitVec.getLsbD_append, BitVec.getLsbD_setWidth]
  simp [hi']

/-- The two tables hold the eight shifts of every byte. -/
theorem tables_eq_shifts : ∀ i : U8, joinBytes (aucCRCLo.getD i.toNat 0#8) (aucCRCHi.getD i.toNat 0#8) =
    shifts polynomial 8 (i.setWidth 16) := by
  decide +kernel

theorem joinBytes_xor (hi lo a : U8) : joinBytes hi (a ^^^ lo) = a.setWidth 16 ^^^ joinBytes hi lo := by
  apply BitVec.eq_of_getLsbD_eq
  intro i hi'
  rw [joinBytes_eq_append, joinBytes_eq_append, BitVec.getLsbD_xor, BitVec.getLsbD_append, BitVec.getLsbD_append,
    BitVec.getLsbD_xor, BitVec.getLsbD_setWidth]
  by_cases h : i < 8
  · simp [h, hi']
  · simp [h, BitVec.getLsbD_of_ge a i (by omega)]

/-- One turn of the loop feeds one byte. -/
theorem tables_feed (ucCRCHi ucCRCLo c : U8) :
    joinBytes (aucCRCLo.getD (ucCRCLo ^^^ c).toNat 0#8) (ucCRCHi ^^^ aucCRCHi.getD (ucCRCLo ^^^ c).toNat 0#8) =
      feed polynomial (joinBytes ucCRCHi ucCRCLo) (octetBits c) := by
  rw [feed_octet polynomial _ c (by decide), joinBytes_xor, tables_eq_shifts, joinBytes_high, joinBytes_low]

@[simp] theorem wireBits_nil : wireBits [] = [] := rfl

@[simp] theorem wireBits_cons (c : U8) (frame : Bytes) : wireBits (c :: frame) = octetBits c ++ wireBits frame := rfl

theorem usMBCRC16Loop_eq_feed (frame : Bytes) (ucCRCHi ucCRCLo : U8) :
    usMBCRC16Loop frame ucCRCHi ucCRCLo = feed polynomial (joinBytes ucCRCHi ucCRCLo) (wireBits frame) := by
  induction frame generalizing ucCRCHi ucCRCLo with
  | nil => rfl
  | cons c frame ih =>
    rw [usMBCRC16Loop, ih, tables_feed, wireBits_cons, feed_append]

/-- The tables compute the bit-by-bit division. -/
theorem usMBCRC16_eq_feed (frame : Bytes) : usMBCRC16 frame = feed polynomial 0xFFFF#16 (wireBits frame) := by
  rw [usMBCRC16, usMBCRC16Loop_eq_feed]
  rfl

theorem polynomial_proper : Proper polynomial := by
  constructor <;> decide

theorem wireBits_append (first second : Bytes) : wireBits (first ++ second) = wireBits first ++ wireBits second :=
  List.flatMap_append

theorem wireBits_length (frame : Bytes) : (wireBits frame).length = 8 * frame.length := by
  induction frame with
  | nil => rfl
  | cons c frame ih =>
    rw [wireBits_cons, List.length_append, octetBits_length, List.length_cons, ih]
    omega

theorem load_wireBits (a b : U8) : (load (wireBits [a, b]) : U16) = joinBytes b a := by
  apply BitVec.eq_of_getLsbD_eq
  intro i hi
  rw [getLsbD_load, joinBytes_eq_append, BitVec.getLsbD_append]
  by_cases h : i < 8
  · simp [octetBits, h, hi]
  · have hrest : i - 8 < 8 := by omega
    have hskip : (octetBits a ++ octetBits b).getD i false = (octetBits b).getD (i - 8) false := by
      rw [List.getD_append_right _ _ _ _ (by rw [octetBits_length]; omega), octetBits_length]
    rw [wireBits_cons, wireBits_cons, wireBits_nil, List.append_nil, hskip]
    simp [octetBits, h, hi, hrest]

/-- A frame and two more bytes leave zero exactly if these are its checksum, low byte first. -/
theorem usMBCRC16_append_eq_zero_iff (frame : Bytes) (a b : U8) :
    usMBCRC16 (frame ++ [a, b]) = 0#16 ↔ joinBytes b a = usMBCRC16 frame := by
  have hlen : (wireBits [a, b]).length ≤ 16 := by rw [wireBits_length]; rfl
  rw [usMBCRC16_eq_feed, wireBits_append, feed_append, feed_eq_zero_iff polynomial _ polynomial_proper _ hlen,
    load_wireBits, usMBCRC16_eq_feed]

/-- A frame of at most 256 bytes has fewer bits than the period of the polynomial. -/
theorem polynomial_period : longPeriod polynomial 2048 (shift polynomial (bit true)) = true := by
  decide +kernel

end DataReceiveRelay.ModbusCrc
