/-
# LoliLoader.Graphics.Font -- src/font.c

The font table: 128 glyphs of 16 bytes, one byte for each row of 8 pixels, the leftmost pixel in the
highest bit.

A glyph is one literal with the 16 bytes of a row of the table in src/font.c, the first byte in
front, so that the two files can be compared by eye line by line. `gFont` cuts the literals into
bytes.

Only two things about the table are ever used: its size, so that the glyph of every character from 0
to 127 is inside, and that the glyph of a backspace is empty. The second one is an assumption of the
source, where it is said in a comment, since a backspace is drawn like any other character.
-/
import LoliLoader.Bytes.LittleEndian

namespace LoliLoader.Graphics

open Bytes

/-- The glyphs, each as the 16 bytes of the table in one literal, first byte first. -/
def glyphs : List Nat :=
  List.replicate 33 0 ++ [
    0x00000018181818181800001818000000,
    0x00000014141400000000000000000000,
    0x0000002424ff24242424ff2424000000,
    0x000000187e99987e19997e1818000000,
    0x00000061926404081010264986000000,
    0x0000003844443c508885864538000000,
    0x00000010100000000000000000000000,
    0x00000008183020404020301808000000,
    0x00000010180c040202040c1810000000,
    0x00000000109254385492100000000000,
    0x00000000000808087f08080800000000,
    0x00000000000000000000003030206000,
    0x000000000000003c3c00000000000000,
    0x00000000000000000000006060000000,
    0x00000000020404081020204000000000,
    0x0000003c4242858991a142423c000000,
    0x0000001828480808080808087f000000,
    0x0000003c42420204081020407e000000,
    0x000000186402023e0402024438000000,
    0x0000000c141424244484ff0404000000,
    0x000000203e20203c020101423c000000,
    0x00000008081020588482824438000000,
    0x0000003e420404040408080808000000,
    0x0000003c4242423c424242423c000000,
    0x0000001c2241231d0202040408000000,
    0x00000000001818000018180000000000,
    0x00000000001818000018183000000000,
    0x00000000000810204020100800000000,
    0x0000000000007c00007c000000000000,
    0x00000000002010080408102000000000,
    0x0000001c224102040808080008000000,
    0x0000000000003c429aa498423c000000,
    0x0000001028284444447c444444000000,
    0x0000007844424478444242427c000000,
    0x0000003c42408080808040423c000000,
    0x000000704c4442424242424478000000,
    0x0000007e4040407e404040407e000000,
    0x0000007e4040407e4040404040000000,
    0x0000001c224040404e4242423e020000,
    0x000000424242427e4242424242000000,
    0x0000007c10101010101010107c000000,
    0x00000002020202020202024438000000,
    0x00000044484850605048484444000000,
    0x0000004040404040404040407e000000,
    0x00000082c6aaaa929282828282000000,
    0x00000042625252524a4a4a4642000000,
    0x0000003e41414141414141413e000000,
    0x00000078444444784040404040000000,
    0x0000007c828282828282928a7e030000,
    0x000000f8848484f8a090888484000000,
    0x0000003c42402010080402423c000000,
    0x000000fe101010101010101010000000,
    0x0000004242424242424242423c000000,
    0x00000082828244444428282810000000,
    0x00000082828282828292aac682000000,
    0x00000082444428102828444482000000,
    0x00000082444428101010101010000000,
    0x000000fe0204081010204080fe000000,
    0x0000001e10101010101010101e000000,
    0x00000000402020100804040200000000,
    0x00000078080808080808080878000000,
    0x00000010284400000000000000000000,
    0x0000000000000000000000007e000000,
    0x00000040201000000000000000000000,
    0x0000000000000070888888887c000000,
    0x00000080808080f088888888f0000000,
    0x00000000000000788480808478000000,
    0x00000008080808788888888878000000,
    0x000000000000007088f8808870000000,
    0x00000018242020f82020202020000000,
    0x000000000000007888888878080808f0,
    0x00000080808080f08888888888000000,
    0x00000000002000002020202020000000,
    0x0000000000200020202020202020a040,
    0x0000008080808088b0c0a09088000000,
    0x00000020202020202020202030000000,
    0x000000000000006c9292929292000000,
    0x00000000000000f08888888888000000,
    0x00000000000000788484848478000000,
    0x0000000000000070888888f080808080,
    0x00000000000000708888887808080808,
    0x00000000000000b0c880808080000000,
    0x00000000000000708070088870000000,
    0x00000000002020f82020202810000000,
    0x00000000000000888888888870000000,
    0x00000000000000888888505020000000,
    0x0000000000000082929292926c000000,
    0x00000000000000885020505088000000,
    0x000000000000008888888878080808f0,
    0x00000000000000fc08102040fc000000,
    0x000000000c10102010100c0000000000,
    0x00000020202020202020202020200000,
    0x00000000180404020404180000000000,
    0x00000060920c00000000000000000000] ++ [0]

/-- `gFont`: the bytes of all glyphs, one glyph behind the other. -/
def gFont : Array UInt8 := (glyphs.flatMap fun g => (leBytes 16 g).reverse).toArray

theorem size_gFont : gFont.size = 2048 := by decide +kernel

/-- The source assumes that the glyph for `\b` is empty; it is. -/
theorem gFont_backspace : ∀ y < 16, gFont[16 * 8 + y]? = some 0 := by decide +kernel

end LoliLoader.Graphics
