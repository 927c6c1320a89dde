import BoltApi.Octets

/-! # Huffman tables of HPACK

`huffman_encode_table` of `http/huffman.cpp` and `decode_table_` of
`http/huffman_table_data.cpp`, entry by entry. -/
namespace BoltApi.Hpack.HuffmanTable

def huffmanEncodeTable : List (List (Nat × Nat)) :=
  [[(0x1ff8, 13), (0x7fffd8, 23), (0xfffffe2, 28), (0xfffffe3, 28), (0xfffffe4, 28),
     (0xfffffe5, 28), (0xfffffe6, 28), (0xfffffe7, 28), (0xfffffe8, 28), (0xffffea, 24),
     (0x3ffffffc, 30), (0xfffffe9, 28), (0xfffffea, 28), (0x3ffffffd, 30), (0xfffffeb, 28),
     (0xfffffec, 28)],
    [(0xfffffed, 28), (0xfffffee, 28), (0xfffffef, 28), (0xffffff0, 28), (0xffffff1, 28),
     (0xffffff2, 28), (0x3ffffffe, 30), (0xffffff3, 28), (0xffffff4, 28), (0xffffff5, 28),
     (0xffffff6, 28), (0xffffff7, 28), (0xffffff8, 28), (0xffffff9, 28), (0xffffffa, 28),
     (0xffffffb, 28)],
    [(0x14, 6), (0x3f8, 10), (0x3f9, 10), (0xffa, 12), (0x1ff9, 13), (0x15, 6), (0xf8, 8),
     (0x7fa, 11), (0x3fa, 10), (0x3fb, 10), (0xf9, 8), (0x7fb, 11), (0xfa, 8), (0x16, 6),
     (0x17, 6), (0x18, 6)],
    [(0x0, 5), (0x1, 5), (0x2, 5), (0x19, 6), (0x1a, 6), (0x1b, 6), (0x1c, 6), (0x1d, 6),
     (0x1e, 6), (0x1f, 6), (0x5c, 7), (0xfb, 8), (0x7ffc, 15), (0x20, 6), (0xffb, 12), (0x3fc, 10)],
    [(0x1ffa, 13), (0x21, 6), (0x5d, 7), (0x5e, 7), (0x5f, 7), (0x60, 7), (0x61, 7), (0x62, 7),
     (0x63, 7), (0x64, 7), (0x65, 7), (0x66, 7), (0x67, 7), (0x68, 7), (0x69, 7), (0x6a, 7)],
    [(0x6b, 7), (0x6c, 7), (0x6d, 7), (0x6e, 7), (0x6f, 7), (0x70, 7), (0x71, 7), (0x72, 7),
     (0xfc, 8), (0x73, 7), (0xfd, 8), (0x1ffb, 13), (0x7fff0, 19), (0x1ffc, 13), (0x3ffc, 14),
     (0x22, 6)],
    [(0x7ffd, 15), (0x3, 5), (0x23, 6), (0x4, 5), (0x24, 6), (0x5, 5), (0x25, 6), (0x26, 6),
     (0x27, 6), (0x6, 5), (0x74, 7), (0x75, 7), (0x28, 6), (0x29, 6), (0x2a, 6), (0x7, 5)],
    [(0x2b, 6), (0x76, 7), (0x2c, 6), (0x8, 5), (0x9, 5), (0x2d, 6), (0x77, 7), (0x78, 7),
     (0x79, 7), (0x7a, 7), (0x7b, 7), (0x7ffe, 15), (0x7fc, 11), (0x3ffd, 14), (0x1ffd, 13),
     (0xffffffc, 28)],
    [(0xfffe6, 20), (0x3fffd2, 22), (0xfffe7, 20), (0xfffe8, 20), (0x3fffd3, 22), (0x3fffd4, 22),
     (0x3fffd5, 22), (0x7fffd9, 23), (0x3fffd6, 22), (0x7fffda, 23), (0x7fffdb, 23),
     (0x7fffdc, 23), (0x7fffdd, 23), (0x7fffde, 23), (0xffffeb, 24), (0x7fffdf, 23)],
    [(0xffffec, 24), (0xffffed, 24), (0x3fffd7, 22), (0x7fffe0, 23), (0xffffee, 24),
     (0x7fffe1, 23), (0x7fffe2, 23), (0x7fffe3, 23), (0x7fffe4, 23), (0x1fffdc, 21),
     (0x3fffd8, 22), (0x7fffe5, 23), (0x3fffd9, 22), (0x7fffe6, 23), (0x7fffe7, 23),
     (0xffffef, 24)],
    [(0x3fffda, 22), (0x1fffdd, 21), (0xfffe9, 20), (0x3fffdb, 22), (0x3fffdc, 22),
     (0x7fffe8, 23), (0x7fffe9, 23), (0x1fffde, 21), (0x7fffea, 23), (0x3fffdd, 22),
     (0x3fffde, 22), (0xfffff0, 24), (0x1fffdf, 21), (0x3fffdf, 22), (0x7fffeb, 23),
     (0x7fffec, 23)],
    [(0x1fffe0, 21), (0x1fffe1, 21), (0x3fffe0, 22), (0x1fffe2, 21), (0x7fffed, 23),
     (0x3fffe1, 22), (0x7fffee, 23), (0x7fffef, 23), (0xfffea, 20), (0x3fffe2, 22),
     (0x3fffe3, 22), (0x3fffe4, 22), (0x7ffff0, 23), (0x3fffe5, 22), (0x3fffe6, 22),
     (0x7ffff1, 23)],
    [(0x3ffffe0, 26), (0x3ffffe1, 26), (0xfffeb, 20), (0x7fff1, 19), (0x3fffe7, 22),
     (0x7ffff2, 23), (0x3fffe8, 22), (0x1ffffec, 25), (0x3ffffe2, 26), (0x3ffffe3, 26),
     (0x3ffffe4, 26), (0x7ffffde, 27), (0x7ffffdf, 27), (0x3ffffe5, 26), (0xfffff1, 24),
     (0x1ffffed, 25)],
    [(0x7fff2, 19), (0x1fffe3, 21), (0x3ffffe6, 26), (0x7ffffe0, 27), (0x7ffffe1, 27),
     (0x3ffffe7, 26), (0x7ffffe2, 27), (0xfffff2, 24), (0x1fffe4, 21), (0x1fffe5, 21),
     (0x3ffffe8, 26), (0x3ffffe9, 26), (0xffffffd, 28), (0x7ffffe3, 27), (0x7ffffe4, 27),
     (0x7ffffe5, 27)],
    [(0xfffec, 20), (0xfffff3, 24), (0xfffed, 20), (0x1fffe6, 21), (0x3fffe9, 22), (0x1fffe7, 21),
     (0x1fffe8, 21), (0x7ffff3, 23), (0x3fffea, 22), (0x3fffeb, 22), (0x1ffffee, 25),
     (0x1ffffef, 25), (0xfffff4, 24), (0xfffff5, 24), (0x3ffffea, 26), (0x7ffff4, 23)],
    [(0x3ffffeb, 26), (0x7ffffe6, 27), (0x3ffffec, 26), (0x3ffffed, 26), (0x7ffffe7, 27),
     (0x7ffffe8, 27), (0x7ffffe9, 27), (0x7ffffea, 27), (0x7ffffeb, 27), (0xffffffe, 28),
     (0x7ffffec, 27), (0x7ffffed, 27), (0x7ffffee, 27), (0x7ffffef, 27), (0x7fffff0, 27),
     (0x3ffffee, 26)]]

/-- Entries of `decode_table_` next to each other, `state_and_flags` and `symbol`. A
symbol that ends inside the nibble has one entry for each value of the bits behind it,
and these lead to the same states for every symbol. Other entries give a next state, one
of them with the accepting flag, or fail. -/
def entriesOf (kind byte : Nat) : List (Nat × Nat) :=
  match kind with
  | 0x1 => [(0xc000, byte)]
  | 0x2 => [(0x8001, byte), (0xc016, byte)]
  | 0x4 => [(0x8002, byte), (0x8009, byte), (0x8017, byte), (0xc028, byte)]
  | 0x8 => [(0x8003, byte), (0x8006, byte), (0x800a, byte), (0x800f, byte),
      (0x8018, byte), (0x801f, byte), (0x8029, byte), (0xc038, byte)]
  | 0xa => [(byte, 0)]
  | 0xe => [(0x4000 + byte, 0)]
  | 0xf => [(0x0100, 0)]
  | _ => []

def unpackRow (packed : Nat) : List (Nat × Nat) :=
  (List.range 16).flatMap fun i =>
    let group := packed / 2 ^ (12 * (15 - i)) % 2 ^ 12
    entriesOf (group / 2 ^ 8) (group % 2 ^ 8)

/-- The rows of `decode_table_`, one a state, one entry a nibble. -/
def packedRows : List Nat := [
  0xa04a05a07a08a0ba0ca10a13a19a1ca20a23a2aa31a39e40,
  0x13013113216116316516916f173174a0da0ea11a12a14a15, 0x23023123226126326526926f, 0x430431432461,
  0x830831, 0x832861, 0x46346546946f, 0x863865, 0x86986f,
  0x27327412012512d12e12f133134135136137138139, 0x47347422022522d22e, 0x873874, 0x42042542d42e,
  0x820825, 0x82d82e, 0x22f233234235236237238239, 0x42f433434435, 0x82f833, 0x834835,
  0x436437438439, 0x836837, 0x838839, 0xa1aa1ba1da1ea21a22a24a25a2ba2ea32a35a3aa3da41e44,
  0x13d14115f16216416616716816c16d16e170172175a26a27, 0x23d24125f262264266267268, 0x43d44145f462,
  0x83d841, 0x85f862, 0x464466467468, 0x864866, 0x867868, 0x26c26d26e27027227513a142143144,
  0x46c46d46e470, 0x86c86d, 0x86e870, 0x47247523a242243244, 0x872875, 0x43a442443444, 0x83a842,
  0x843844, 0xa2ca2da2fa30a33a34a36a37a3ba3ca3ea3fa42a43a45e48,
  0x14514614714814914a14b14c14d14e14f150151152153154, 0x24524624724824924a24b24c, 0x445446447448,
  0x845846, 0x847848, 0x44944a44b44c, 0x84984a, 0x84b84c, 0x24d24e24f250251252253254,
  0x44d44e44f450, 0x84d84e, 0x84f850, 0x451452453454, 0x851852, 0x853854,
  0x15515615715916a16b17117617717817917aa46a47a49e4a, 0x25525625725926a26b271276, 0x455456457459,
  0x855856, 0x857859, 0x46a46b471476, 0x86a86b, 0x871876, 0x27727827927a12612a12c13b15815aa4ba4e,
  0x47747847947a, 0x877878, 0x87987a, 0x22622a22c23b25825aa4ca4da4fa51, 0x42642a42c43b, 0x82682a,
  0x82c83b, 0x45845a12112212812913fa50a52a54, 0x85885a, 0x22122222822923f12712b17ca53a55a58,
  0x421422428429, 0x821822, 0x828829, 0x43f22722b27c12313ea56a57a59a5a, 0x83f42742b, 0x82782b,
  0x47c22323e10012414015b15d17ea5ba5c, 0x87c42343e, 0x82383e, 0x20022424025b25d27e15e17da5da5e,
  0x40042444045b, 0x800824, 0x84085b, 0x45d47e25e27d13c16017ba5f, 0x85d87e, 0x45e47d23c26027ba60a6e,
  0x85e87d, 0x43c46047ba61a65a6fa85, 0x83c860, 0x87ba62a63a66a69a70a77a86a99,
  0x15c1c31d0a64a67a68a6aa6ba71a74a78a7ea87a8ea9aaa9, 0x25c2c32d01801821831a21b81c21e01e2a6ca6d,
  0x45c4c34d0280282, 0x85c8c3, 0x8d0480482, 0x880882, 0x2832a22b82c22e02e21991a11a71ac,
  0x4834a24b84c2, 0x8838a2, 0x8b88c2, 0x4e04e22992a12a72ac, 0x8e08e2, 0x4994a14a74ac, 0x8998a1,
  0x8a78ac, 0xa72a73a75a76a79a7ba7fa82a88a8ba8fa92a9baa2aaaab4,
  0x1b01b11b31d11d81d91e31e51e6a7aa7ca7da80a81a83a84, 0x2b02b12b32d12d82d92e32e5, 0x4b04b14b34d1,
  0x8b08b1, 0x8b38d1, 0x4d84d94e34e5, 0x8d88d9, 0x8e38e5,
  0x2e618118418518618819219a19c1a01a31a41a91aa1ad, 0x4e6281284285286288292, 0x8e6481484, 0x881884,
  0x485486488492, 0x885886, 0x888892, 0x29a29c2a02a32a42a92aa2ad, 0x49a49c4a04a3, 0x89a89c,
  0x8a08a3, 0x4a44a94aa4ad, 0x8a48a9, 0x8aa8ad, 0xa89a8aa8ca8da90a91a93a96a9ca9faa3aa6aabaaeab5abe,
  0x1b21b51b91ba1bb1bd1be1c41c61e41e81e9a94a95a97a98, 0x2b22b52b92ba2bb2bd2be2c4, 0x4b24b54b94ba,
  0x8b28b5, 0x8b98ba, 0x4bb4bd4be4c4, 0x8bb8bd, 0x8be8c4, 0x2c62e42e82e910118718918a18b18c18d18f,
  0x4c64e44e84e9, 0x8c68e4, 0x8e88e9, 0x20128728928a28b28c28d28f, 0x40148748948a, 0x801887,
  0x88988a, 0x48b48c48d48f, 0x88b88c, 0x88d88f, 0xa9da9eaa0aa1aa4aa5aa7aa8aacaadaafab1ab6ab9abfacf,
  0x19319519619719819b19d19e1a51a61a81ae1af1b41b61b7, 0x29329529629729829b29d29e, 0x493495496497,
  0x893895, 0x896897, 0x49849b49d49e, 0x89889b, 0x89d89e, 0x2a52a62a82ae2af2b42b62b7,
  0x4a54a64a84ae, 0x8a58a6, 0x8a88ae, 0x4af4b44b64b7, 0x8af8b4, 0x8b68b7,
  0x1bc1bf1c51e71efab0ab2ab3ab7ab8abaabbac0ac7ad0adf, 0x2bc2bf2c52e72ef10918e19019119419f,
  0x4bc4bf4c54e7, 0x8bc8bf, 0x8c58e7, 0x4ef20928e29029129429f, 0x8ef40948e, 0x80988e,
  0x49049149449f, 0x890891, 0x89489f, 0x1ab1ce1d71e11ec1edabcabdac1ac4ac8acbad1ad8ae0aee,
  0x2ab2ce2d72e12ec2ed1c71cf1ea1eb, 0x4ab4ce4d74e1, 0x8ab8ce, 0x8d78e1, 0x4ec4ed2c72cf2ea2eb,
  0x8ec8ed, 0x4c74cf4ea4eb, 0x8c78cf, 0x8ea8eb, 0xac2ac3ac5ac6ac9acaaccacdad2ad5ad9adcae1ae7aefaf6,
  0x1c01c11c81c91ca1cd1d21d51da1db1ee1f01f21f31fface, 0x2c02c12c82c92ca2cd2d22d5, 0x4c04c14c84c9,
  0x8c08c1, 0x8c88c9, 0x4ca4cd4d24d5, 0x8ca8cd, 0x8d28d5, 0x2da2db2ee2f02f22f32ff1cb1cc,
  0x4da4db4ee4f0, 0x8da8db, 0x8ee8f0, 0x4f24f34ff2cb2cc, 0x8f28f3, 0x8ff4cb4cc, 0x8cb8cc,
  0xad3ad4ad6ad7adaadbaddadeae2ae4ae8aebaf0af3af7afa,
  0x1d31d41d61dd1de1df1f11f41f51f61f71f81fa1fb1fc1fd, 0x2d32d42d62dd2de2df2f12f4, 0x4d34d44d64dd,
  0x8d38d4, 0x8d68dd, 0x4de4df4f14f4, 0x8de8df, 0x8f18f4, 0x2f52f62f72f82fa2fb2fc2fd,
  0x4f54f64f74f8, 0x8f58f6, 0x8f78f8, 0x4fa4fb4fc4fd, 0x8fa8fb, 0x8fc8fd,
  0x1feae3ae5ae6ae9aeaaecaedaf1af2af4af5af8af9afbafc,
  0x2fe10210310410510610710810b10c10e10f110111112, 0x4fe202203204205206207, 0x8fe402403, 0x802803,
  0x404405406407, 0x804805, 0x806807, 0x20820b20c20e20f210211212, 0x40840b40c40e, 0x80880b,
  0x80c80e, 0x40f410411412, 0x80f810, 0x811812, 0x11311411511711811911a11b11c11d11e11f17f1dc1f9afd,
  0x21321421521721821921a21b, 0x413414415417, 0x813814, 0x815817, 0x41841941a41b, 0x818819,
  0x81a81b, 0x21c21d21e21f27f2dc2f9afeaff, 0x41c41d41e41f, 0x81c81d, 0x81e81f,
  0x47f4dc4f910a10d116f00, 0x87f8dc, 0x8f920a20d216f00f00, 0x40a40d416f00f00f00f00, 0x80a80d,
  0x816f00f00f00f00f00f00f00f00, 0xf00f00f00f00f00f00f00f00f00f00f00f00f00f00f00f00]

def decodeTable : List (List (Nat × Nat)) := packedRows.map unpackRow

end BoltApi.Hpack.HuffmanTable
