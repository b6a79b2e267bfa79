/-!
# Unseen characters

The characters that show nothing of their own: controls, format characters, separators other than
the space, marks that extend the character before them, private use, and the code points between
these that no character has.
-/

namespace Backtest.Text

/-- The code points of unseen characters as inclusive ranges, in ascending order. -/
def unseenRanges : List (Nat × Nat) :=
  [(0x00, 0x1f), (0x7f, 0xa0), (0xad, 0xad), (0x300, 0x36f), (0x483, 0x489), (0x590, 0x5bd),
   (0x5bf, 0x5bf), (0x5c1, 0x5c2), (0x5c4, 0x5c5), (0x5c7, 0x5cf), (0x5f5, 0x605), (0x610, 0x61a),
   (0x61c, 0x61c), (0x64b, 0x65f), (0x670, 0x670), (0x6d6, 0x6dd), (0x6df, 0x6e4), (0x6e7, 0x6e8),
   (0x6ea, 0x6ed), (0x70e, 0x70f), (0x711, 0x711), (0x730, 0x74c), (0x7a6, 0x7b0), (0x7eb, 0x7f3),
   (0x7fb, 0x7fd), (0x816, 0x819), (0x81b, 0x823), (0x825, 0x827), (0x829, 0x82f), (0x859, 0x85d),
   (0x88f, 0x89f), (0x8ca, 0x902), (0x93a, 0x93a), (0x93c, 0x93c), (0x941, 0x948), (0x94d, 0x94d),
   (0x951, 0x957), (0x962, 0x963), (0x981, 0x981), (0x9ba, 0x9bc), (0x9be, 0x9be), (0x9c1, 0x9c6),
   (0x9cd, 0x9cd), (0x9cf, 0x9db), (0x9e2, 0x9e5), (0x9fe, 0xa02), (0xa3a, 0xa3d), (0xa41, 0xa58),
   (0xa70, 0xa71), (0xa75, 0xa75), (0xa77, 0xa82), (0xaba, 0xabc), (0xac1, 0xac8), (0xacd, 0xacf),
   (0xae2, 0xae5), (0xafa, 0xb01), (0xb3a, 0xb3c), (0xb3e, 0xb3f), (0xb41, 0xb46), (0xb4d, 0xb5b),
   (0xb62, 0xb65), (0xb78, 0xb82), (0xbba, 0xbbe), (0xbc0, 0xbc0), (0xbcd, 0xbcf), (0xbd1, 0xbe5),
   (0xbfb, 0xc00), (0xc04, 0xc04), (0xc3a, 0xc3c), (0xc3e, 0xc40), (0xc45, 0xc57), (0xc62, 0xc65),
   (0xc81, 0xc81), (0xcba, 0xcbc), (0xcbf, 0xcc0), (0xcc2, 0xcc2), (0xcc5, 0xcdc), (0xce2, 0xce5),
   (0xcf3, 0xd01), (0xd3b, 0xd3c), (0xd3e, 0xd3e), (0xd41, 0xd45), (0xd4d, 0xd4d), (0xd57, 0xd57),
   (0xd62, 0xd65), (0xd80, 0xd81), (0xdc7, 0xdcf), (0xdd2, 0xdd7), (0xddf, 0xde5), (0xe31, 0xe31),
   (0xe34, 0xe3e), (0xe47, 0xe4e), (0xeb1, 0xeb1), (0xeb4, 0xebc), (0xec7, 0xecf), (0xf18, 0xf19),
   (0xf35, 0xf35), (0xf37, 0xf37), (0xf39, 0xf39), (0xf6d, 0xf7e), (0xf80, 0xf84), (0xf86, 0xf87),
   (0xf8d, 0xfbd), (0xfc6, 0xfc6), (0x102d, 0x1030), (0x1032, 0x1037), (0x1039, 0x103a),
   (0x103d, 0x103e), (0x1058, 0x1059), (0x105e, 0x1060), (0x1071, 0x1074), (0x1082, 0x1082),
   (0x1085, 0x1086), (0x108d, 0x108d), (0x109d, 0x109d), (0x135b, 0x135f), (0x1680, 0x1680),
   (0x1712, 0x1714), (0x1732, 0x1733), (0x1752, 0x175f), (0x1771, 0x177f), (0x17b4, 0x17b5),
   (0x17b7, 0x17bd), (0x17c6, 0x17c6), (0x17c9, 0x17d3), (0x17dd, 0x17df), (0x180b, 0x180f),
   (0x1885, 0x1886), (0x18a9, 0x18a9), (0x191f, 0x1922), (0x1927, 0x1928), (0x1932, 0x1932),
   (0x1939, 0x193f), (0x1a17, 0x1a18), (0x1a1b, 0x1a1d), (0x1a56, 0x1a56), (0x1a58, 0x1a60),
   (0x1a62, 0x1a62), (0x1a65, 0x1a6c), (0x1a73, 0x1a7f), (0x1aae, 0x1b03), (0x1b34, 0x1b3a),
   (0x1b3c, 0x1b3c), (0x1b42, 0x1b42), (0x1b6b, 0x1b73), (0x1b7f, 0x1b81), (0x1ba2, 0x1ba5),
   (0x1ba8, 0x1ba9), (0x1bab, 0x1bad), (0x1be6, 0x1be6), (0x1be8, 0x1be9), (0x1bed, 0x1bed),
   (0x1bef, 0x1bf1), (0x1c2c, 0x1c33), (0x1c36, 0x1c3a), (0x1cc8, 0x1cd2), (0x1cd4, 0x1ce0),
   (0x1ce2, 0x1ce8), (0x1ced, 0x1ced), (0x1cf4, 0x1cf4), (0x1cf8, 0x1cf9), (0x1dc0, 0x1dff),
   (0x1fff, 0x200f), (0x2028, 0x202f), (0x205f, 0x206f), (0x20c1, 0x20ff), (0x2cef, 0x2cf1),
   (0x2d71, 0x2d7f), (0x2ddf, 0x2dff), (0x2ffc, 0x3000), (0x302a, 0x302f), (0x3097, 0x309a),
   (0xa66f, 0xa672), (0xa674, 0xa67d), (0xa69e, 0xa69f), (0xa6f0, 0xa6f1), (0xa802, 0xa802),
   (0xa806, 0xa806), (0xa80b, 0xa80b), (0xa825, 0xa826), (0xa82c, 0xa82f), (0xa8c4, 0xa8cd),
   (0xa8da, 0xa8f1), (0xa8ff, 0xa8ff), (0xa926, 0xa92d), (0xa947, 0xa951), (0xa97d, 0xa982),
   (0xa9b3, 0xa9b3), (0xa9b6, 0xa9b9), (0xa9bc, 0xa9bd), (0xa9e5, 0xa9e5), (0xaa29, 0xaa2e),
   (0xaa31, 0xaa32), (0xaa35, 0xaa3f), (0xaa43, 0xaa43), (0xaa4c, 0xaa4c), (0xaa7c, 0xaa7c),
   (0xaab0, 0xaab0), (0xaab2, 0xaab4), (0xaab7, 0xaab8), (0xaabe, 0xaabf), (0xaac1, 0xaac1),
   (0xaaec, 0xaaed), (0xaaf6, 0xab00), (0xabe5, 0xabe5), (0xabe8, 0xabe8), (0xabed, 0xabef),
   (0xd7fc, 0xf8ff), (0xfb1e, 0xfb1e), (0xfe00, 0xfe0f), (0xfe1a, 0xfe2f), (0xfefd, 0xff00),
   (0xff9e, 0xff9f), (0xffef, 0xfffb), (0x101fd, 0x1027f), (0x102d1, 0x102e0), (0x10376, 0x1037f),
   (0x10a01, 0x10a0f), (0x10a36, 0x10a3f), (0x10ae5, 0x10aea), (0x10d24, 0x10d2f),
   (0x10eaa, 0x10eac), (0x10f46, 0x10f50), (0x10f82, 0x10f85), (0x11001, 0x11001),
   (0x11038, 0x11046), (0x11070, 0x11070), (0x11073, 0x11074), (0x11076, 0x11081),
   (0x110b3, 0x110b6), (0x110b9, 0x110ba), (0x110bd, 0x110bd), (0x110c2, 0x110cf),
   (0x110fa, 0x11102), (0x11127, 0x1112b), (0x1112d, 0x11135), (0x11173, 0x11173),
   (0x11177, 0x11181), (0x111b6, 0x111be), (0x111c9, 0x111cc), (0x111cf, 0x111cf),
   (0x1122f, 0x11231), (0x11234, 0x11234), (0x11236, 0x11237), (0x1123e, 0x1127f),
   (0x112df, 0x112df), (0x112e3, 0x112ef), (0x112fa, 0x11301), (0x1133a, 0x1133c),
   (0x1133e, 0x1133e), (0x11340, 0x11340), (0x11351, 0x1135c), (0x11364, 0x113ff),
   (0x11438, 0x1143f), (0x11442, 0x11444), (0x11446, 0x11446), (0x1145e, 0x1145e),
   (0x114b0, 0x114b0), (0x114b3, 0x114b8), (0x114ba, 0x114ba), (0x114bd, 0x114bd),
   (0x114bf, 0x114c0), (0x114c2, 0x114c3), (0x115af, 0x115af), (0x115b2, 0x115b7),
   (0x115bc, 0x115bd), (0x115bf, 0x115c0), (0x115dc, 0x115ff), (0x11633, 0x1163a),
   (0x1163d, 0x1163d), (0x1163f, 0x11640), (0x116ab, 0x116ab), (0x116ad, 0x116ad),
   (0x116b0, 0x116b5), (0x116b7, 0x116b7), (0x1171b, 0x1171f), (0x11722, 0x11725),
   (0x11727, 0x1172f), (0x1182f, 0x11837), (0x11839, 0x1183a), (0x11930, 0x11930),
   (0x11939, 0x1193c), (0x1193e, 0x1193e), (0x11943, 0x11943), (0x119d4, 0x119db),
   (0x119e0, 0x119e0), (0x11a01, 0x11a0a), (0x11a33, 0x11a38), (0x11a3b, 0x11a3e),
   (0x11a47, 0x11a4f), (0x11a51, 0x11a56), (0x11a59, 0x11a5b), (0x11a8a, 0x11a96),
   (0x11a98, 0x11a99), (0x11c30, 0x11c3d), (0x11c3f, 0x11c3f), (0x11c90, 0x11ca8),
   (0x11caa, 0x11cb0), (0x11cb2, 0x11cb3), (0x11cb5, 0x11cff), (0x11d31, 0x11d45),
   (0x11d47, 0x11d4f), (0x11d8f, 0x11d92), (0x11d95, 0x11d95), (0x11d97, 0x11d97),
   (0x11ef3, 0x11ef4), (0x1342f, 0x143ff), (0x14647, 0x167ff), (0x16aee, 0x16af4),
   (0x16b30, 0x16b36), (0x16f4b, 0x16f4f), (0x16f88, 0x16f92), (0x16fe4, 0x16fef),
   (0x18d09, 0x1afef), (0x1bc9d, 0x1bc9e), (0x1bca0, 0x1cf4f), (0x1d165, 0x1d165),
   (0x1d167, 0x1d169), (0x1d16e, 0x1d182), (0x1d185, 0x1d18b), (0x1d1aa, 0x1d1ad),
   (0x1d242, 0x1d244), (0x1da00, 0x1da36), (0x1da3b, 0x1da6c), (0x1da75, 0x1da75),
   (0x1da84, 0x1da84), (0x1da8c, 0x1deff), (0x1df1f, 0x1df24), (0x1df2b, 0x1e02f),
   (0x1e06e, 0x1e0ff), (0x1e12d, 0x1e136), (0x1e2ae, 0x1e2bf), (0x1e2ec, 0x1e2ef),
   (0x1e8d0, 0x1e8ff), (0x1e944, 0x1e94a), (0x3134b, 0x3134f), (0x323b0, 0x10ffff)]

def isUnseen (c : Char) : Bool :=
  unseenRanges.any fun (low, high) => low ≤ c.toNat && c.toNat ≤ high

end Backtest.Text
