import Mathlib.Data.List.Basic

namespace Sql602.Collation

/-! The weights of characters and the tables of the character sets. -/

def ORA : Nat := 0x41
def ORB : Nat := 0x42
def ORC : Nat := 0x43
def ORD : Nat := 0x44
def ORE : Nat := 0x45
def ORF : Nat := 0x46
def ORG : Nat := 0x47
def ORH : Nat := 0x48
def ORCh : Nat := 0x49
def ORI : Nat := 0x4A
def ORJ : Nat := 0x4B
def ORK : Nat := 0x4C
def ORL : Nat := 0x4D
def ORM : Nat := 0x4E
def ORN : Nat := 0x4F
def ORO : Nat := 0x50
def ORP : Nat := 0x51
def ORQ : Nat := 0x52
def ORR : Nat := 0x53
def ORS : Nat := 0x54
def ORT : Nat := 0x55
def ORU : Nat := 0x56
def ORV : Nat := 0x57
def ORW : Nat := 0x58
def ORX : Nat := 0x59
def ORY : Nat := 0x5A
def ORZ : Nat := 0x5B
def ORETH : Nat := 0x5C
def ORTHORN : Nat := 0x5D
def ORSML : Nat := 0x1000
def OR_OCAR : Nat := 1
def OR_CAR : Nat := 2
def OR_VOKAN : Nat := 3
def OR_TILDA : Nat := 4
def OR_DDOT : Nat := 5
def OR_DCAR : Nat := 6
def OR_HACEK : Nat := 7
def OR_CEDIL : Nat := 8
def OR_KROUZ : Nat := 9
def OR_SPEC : Nat := 10
def ORZN : Nat := 0x200

def orBig (base diacr : Nat) : Nat := 16 * base + diacr

def orSml (base diacr : Nat) : Nat := 16 * base + diacr + ORSML

def orChar (base : Nat) : Nat := 16 * base

def NONCHR : Nat := orChar (ORZN + 200)

/-- Terminator in index-passing without limit. -/
def TERMCH : Nat := NONCHR + 1

/-- From the letter A on. -/
def unicodeOrder : List Nat := [
  orBig ORA 0, orBig ORB 0, orBig ORC 0, orBig ORD 0, orBig ORE 0, orBig ORF 0, orBig ORG 0,
  orBig ORH 0, orBig ORI 0, orBig ORJ 0, orBig ORK 0, orBig ORL 0, orBig ORM 0, orBig ORN 0,
  orBig ORO 0, orBig ORP 0, orBig ORQ 0, orBig ORR 0, orBig ORS 0, orBig ORT 0, orBig ORU 0,
  orBig ORV 0, orBig ORW 0, orBig ORX 0, orBig ORY 0, orBig ORZ 0, orChar (ORZN + 1),
  orChar (ORZN + 2), orChar (ORZN + 3), orChar (ORZN + 4), orChar (ORZN + 5), orChar (ORZN + 6),
  orSml ORA 0, orSml ORB 0, orSml ORC 0, orSml ORD 0, orSml ORE 0, orSml ORF 0, orSml ORG 0,
  orSml ORH 0, orSml ORI 0, orSml ORJ 0, orSml ORK 0, orSml ORL 0, orSml ORM 0, orSml ORN 0,
  orSml ORO 0, orSml ORP 0, orSml ORQ 0, orSml ORR 0, orSml ORS 0, orSml ORT 0, orSml ORU 0,
  orSml ORV 0, orSml ORW 0, orSml ORX 0, orSml ORY 0, orSml ORZ 0, orChar (ORZN + 7),
  orChar (ORZN + 8), orChar (ORZN + 9), orChar (ORZN + 10), orChar (ORZN + 11),
  orChar (ORZN + 100), orChar (ORZN + 101), orChar (ORZN + 102), orChar (ORZN + 103),
  orChar (ORZN + 104), orChar (ORZN + 105), orChar (ORZN + 106), orChar (ORZN + 107),
  orChar (ORZN + 110), orChar (ORZN + 111), orChar (ORZN + 112), orChar (ORZN + 113),
  orChar (ORZN + 114), orChar (ORZN + 115), orChar (ORZN + 116), orChar (ORZN + 117),
  orChar (ORZN + 120), orChar (ORZN + 121), orChar (ORZN + 122), orChar (ORZN + 123),
  orChar (ORZN + 124), orChar (ORZN + 125), orChar (ORZN + 126), orChar (ORZN + 127),
  orChar (ORZN + 130), orChar (ORZN + 131), orChar (ORZN + 132), orChar (ORZN + 133),
  orChar (ORZN + 134), orChar (ORZN + 135), orChar (ORZN + 136), orChar (ORZN + 137),
  orChar (ORZN + 140), orChar (ORZN + 141), orChar (ORZN + 142), orChar (ORZN + 143),
  orChar (ORZN + 144), orChar (ORZN + 145), orChar (ORZN + 146), orChar (ORZN + 147),
  orChar (ORZN + 150), orChar (ORZN + 151), orChar (ORZN + 152), orChar (ORZN + 153),
  orChar (ORZN + 154), orChar (ORZN + 155), orChar (ORZN + 156), orChar (ORZN + 157),
  orChar (ORZN + 160), orChar (ORZN + 161), orChar (ORZN + 162), orChar (ORZN + 163),
  orChar (ORZN + 164), orChar (ORZN + 165), orChar (ORZN + 166), orChar (ORZN + 167),
  orChar (ORZN + 170), orChar (ORZN + 171), orChar (ORZN + 172), orChar (ORZN + 173),
  orChar (ORZN + 174), orChar (ORZN + 175), orChar (ORZN + 176), orChar (ORZN + 177),
  orBig ORA OR_OCAR, orBig ORA OR_CAR, orBig ORA OR_VOKAN, orBig ORA OR_TILDA, orBig ORA OR_DDOT,
  orBig ORA OR_KROUZ, orBig ORA OR_SPEC, orBig ORC OR_CEDIL, orBig ORE OR_OCAR, orBig ORE OR_CAR,
  orBig ORE OR_VOKAN, orBig ORE OR_DDOT, orBig ORI OR_OCAR, orBig ORI OR_CAR, orBig ORI OR_VOKAN,
  orBig ORI OR_DDOT, orBig ORETH 0, orBig ORN OR_TILDA, orBig ORO OR_OCAR, orBig ORO OR_CAR,
  orBig ORO OR_VOKAN, orBig ORO OR_TILDA, orBig ORO OR_DDOT, orChar (ORZN + 180),
  orBig ORO OR_SPEC, orBig ORU OR_OCAR, orBig ORU OR_CAR, orBig ORU OR_VOKAN, orBig ORU OR_DDOT,
  orBig ORY OR_CAR, orBig ORTHORN 0, orSml ORS OR_SPEC, orSml ORA OR_OCAR, orSml ORA OR_CAR,
  orSml ORA OR_VOKAN, orSml ORA OR_TILDA, orSml ORA OR_DDOT, orSml ORA OR_KROUZ,
  orSml ORA OR_SPEC, orSml ORC OR_CEDIL, orSml ORE OR_OCAR, orSml ORE OR_CAR, orSml ORE OR_VOKAN,
  orSml ORE OR_DDOT, orSml ORI OR_OCAR, orSml ORI OR_CAR, orSml ORI OR_VOKAN, orSml ORI OR_DDOT,
  orSml ORETH 0, orSml ORN OR_TILDA, orSml ORO OR_OCAR, orSml ORO OR_CAR, orSml ORO OR_VOKAN,
  orSml ORO OR_TILDA, orSml ORO OR_DDOT, orChar (ORZN + 181), orSml ORO OR_SPEC,
  orSml ORU OR_OCAR, orSml ORU OR_CAR, orSml ORU OR_VOKAN, orSml ORU OR_DDOT, orSml ORY OR_CAR,
  orSml ORTHORN 0, orSml ORY OR_DDOT, NONCHR, NONCHR, orBig ORA OR_HACEK, orSml ORA OR_HACEK,
  orBig ORA OR_CEDIL, orSml ORA OR_CEDIL, orBig ORC OR_CAR, orSml ORC OR_CAR, NONCHR, NONCHR,
  NONCHR, NONCHR, orBig ORC OR_HACEK, orSml ORC OR_HACEK, orBig ORD OR_HACEK, orSml ORD OR_HACEK,
  orBig ORD OR_SPEC, orSml ORD OR_SPEC, NONCHR, NONCHR, NONCHR, NONCHR, NONCHR, NONCHR,
  orBig ORE OR_CEDIL, orSml ORE OR_CEDIL, orBig ORE OR_HACEK, orSml ORE OR_HACEK, NONCHR, NONCHR,
  NONCHR, NONCHR, NONCHR, NONCHR, NONCHR, NONCHR, NONCHR, NONCHR, NONCHR, NONCHR, NONCHR, NONCHR,
  NONCHR, NONCHR, NONCHR, NONCHR, NONCHR, NONCHR, NONCHR, NONCHR, NONCHR, NONCHR, NONCHR, NONCHR,
  NONCHR, NONCHR, NONCHR, orBig ORL OR_CAR, orSml ORL OR_CAR, NONCHR, NONCHR, orBig ORL OR_HACEK,
  orSml ORL OR_HACEK, NONCHR, NONCHR, orBig ORL OR_SPEC, orSml ORL OR_SPEC, orBig ORN OR_CAR,
  orSml ORL OR_CAR, NONCHR, NONCHR, orBig ORN OR_HACEK, orSml ORN OR_HACEK, NONCHR, NONCHR,
  NONCHR, NONCHR, NONCHR, NONCHR, NONCHR, orBig ORO OR_DCAR, orSml ORO OR_DCAR, NONCHR, NONCHR,
  orBig ORR OR_CAR, orSml ORR OR_CAR, NONCHR, NONCHR, orBig ORR OR_HACEK, orSml ORR OR_HACEK,
  orBig ORS OR_CAR, orSml ORS OR_CAR, NONCHR, NONCHR, orBig ORS OR_CEDIL, orSml ORS OR_CEDIL,
  orBig ORS OR_HACEK, orSml ORS OR_HACEK, orBig ORT OR_CEDIL, orSml ORT OR_CEDIL,
  orBig ORT OR_HACEK, orSml ORT OR_HACEK, NONCHR, NONCHR, NONCHR, NONCHR, NONCHR, NONCHR, NONCHR,
  NONCHR, orBig ORU OR_KROUZ, orSml ORU OR_KROUZ, orBig ORU OR_DCAR, orSml ORU OR_DCAR, NONCHR,
  NONCHR, NONCHR, NONCHR, NONCHR, NONCHR, NONCHR, orBig ORZ OR_CAR, orSml ORZ OR_CAR,
  orBig ORZ OR_DDOT, orSml ORZ OR_DDOT, orBig ORZ OR_HACEK, orSml ORZ OR_HACEK]

def ansiconv : List Nat := [
  0, 1, 2, 3, 4, 5, 6, 7, 8, 9, 10, 11, 12, 13, 14, 15, 16, 17, 18, 19, 20, 21, 22, 23, 24, 25,
  26, 27, 28, 29, 30, 31, 32, 33, 34, 35, 36, 37, 38, 39, 40, 41, 42, 43, 44, 45, 46, 47, 48, 49,
  50, 51, 52, 53, 54, 55, 56, 57, 58, 59, 60, 61, 62, 63, 64, 65, 66, 67, 68, 69, 70, 71, 72, 73,
  74, 75, 76, 77, 78, 79, 80, 81, 82, 83, 84, 85, 86, 87, 88, 89, 90, 91, 92, 93, 94, 95, 96, 65,
  66, 67, 68, 69, 70, 71, 72, 73, 74, 75, 76, 77, 78, 79, 80, 81, 82, 83, 84, 85, 86, 87, 88, 89,
  90, 123, 124, 125, 126, 127, 128, 129, 130, 131, 132, 133, 134, 135, 136, 137, 138, 139, 140,
  141, 142, 143, 144, 145, 146, 147, 148, 149, 150, 151, 152, 153, 154, 155, 156, 157, 158, 158,
  160, 161, 162, 163, 164, 165, 166, 167, 168, 169, 170, 171, 172, 173, 174, 175, 176, 177, 178,
  179, 180, 181, 182, 183, 184, 185, 186, 187, 188, 189, 190, 191, 192, 193, 194, 195, 196, 197,
  198, 199, 200, 201, 202, 203, 204, 205, 206, 207, 208, 209, 210, 211, 212, 213, 214, 215, 216,
  217, 218, 219, 220, 221, 222, 223, 224, 225, 226, 227, 228, 229, 230, 231, 232, 233, 234, 235,
  236, 237, 238, 239, 240, 241, 242, 243, 244, 245, 246, 247, 248, 249, 250, 251, 252, 253, 254,
  255]

def csconv : List Nat := [
  0, 1, 2, 3, 4, 5, 6, 7, 8, 9, 10, 11, 12, 13, 14, 15, 16, 17, 18, 19, 20, 21, 22, 23, 24, 25,
  26, 27, 28, 29, 30, 31, 32, 33, 34, 35, 36, 37, 38, 39, 40, 41, 42, 43, 44, 45, 46, 47, 48, 49,
  50, 51, 52, 53, 54, 55, 56, 57, 58, 59, 60, 61, 62, 63, 64, 65, 66, 67, 68, 69, 70, 71, 72, 73,
  74, 75, 76, 77, 78, 79, 80, 81, 82, 83, 84, 85, 86, 87, 88, 89, 90, 91, 92, 93, 94, 95, 96, 65,
  66, 67, 68, 69, 70, 71, 72, 73, 74, 75, 76, 77, 78, 79, 80, 81, 82, 83, 84, 85, 86, 87, 88, 89,
  90, 123, 124, 125, 126, 127, 128, 129, 130, 131, 132, 133, 134, 135, 136, 137, 138, 139, 140,
  141, 142, 143, 144, 145, 146, 147, 148, 149, 150, 151, 152, 153, 138, 155, 140, 141, 142, 143,
  160, 161, 162, 163, 164, 165, 166, 167, 168, 169, 170, 171, 172, 173, 174, 175, 176, 177, 178,
  163, 180, 181, 182, 183, 184, 165, 170, 187, 188, 189, 188, 175, 192, 193, 194, 195, 196, 197,
  198, 199, 200, 201, 202, 203, 204, 205, 206, 207, 208, 209, 210, 211, 212, 213, 214, 215, 216,
  217, 218, 219, 220, 221, 222, 223, 192, 193, 194, 195, 196, 197, 198, 199, 200, 201, 202, 203,
  204, 205, 206, 207, 208, 209, 210, 211, 212, 213, 214, 247, 216, 217, 218, 219, 220, 221, 222,
  255]

def conv1252 : List Nat := [
  0, 1, 2, 3, 4, 5, 6, 7, 8, 9, 10, 11, 12, 13, 14, 15, 16, 17, 18, 19, 20, 21, 22, 23, 24, 25,
  26, 27, 28, 29, 30, 31, 32, 33, 34, 35, 36, 37, 38, 39, 40, 41, 42, 43, 44, 45, 46, 47, 48, 49,
  50, 51, 52, 53, 54, 55, 56, 57, 58, 59, 60, 61, 62, 63, 64, 65, 66, 67, 68, 69, 70, 71, 72, 73,
  74, 75, 76, 77, 78, 79, 80, 81, 82, 83, 84, 85, 86, 87, 88, 89, 90, 91, 92, 93, 94, 95, 96, 65,
  66, 67, 68, 69, 70, 71, 72, 73, 74, 75, 76, 77, 78, 79, 80, 81, 82, 83, 84, 85, 86, 87, 88, 89,
  90, 123, 124, 125, 126, 127, 128, 129, 130, 131, 132, 133, 134, 135, 136, 137, 138, 139, 140,
  141, 142, 143, 144, 145, 146, 147, 148, 149, 150, 151, 152, 153, 138, 155, 140, 157, 142, 159,
  160, 161, 162, 163, 164, 165, 166, 167, 168, 169, 170, 171, 172, 173, 174, 175, 176, 177, 178,
  179, 180, 181, 182, 183, 184, 185, 186, 187, 188, 189, 190, 191, 192, 193, 194, 195, 196, 197,
  198, 199, 200, 201, 202, 203, 204, 205, 206, 207, 208, 209, 210, 211, 212, 213, 214, 215, 216,
  217, 218, 219, 220, 221, 222, 223, 192, 193, 194, 195, 196, 197, 198, 199, 200, 201, 202, 203,
  204, 205, 206, 207, 208, 209, 210, 211, 212, 213, 214, 247, 216, 217, 218, 219, 220, 221, 222,
  158]

def conv8859_2 : List Nat := [
  0, 1, 2, 3, 4, 5, 6, 7, 8, 9, 10, 11, 12, 13, 14, 15, 16, 17, 18, 19, 20, 21, 22, 23, 24, 25,
  26, 27, 28, 29, 30, 31, 32, 33, 34, 35, 36, 37, 38, 39, 40, 41, 42, 43, 44, 45, 46, 47, 48, 49,
  50, 51, 52, 53, 54, 55, 56, 57, 58, 59, 60, 61, 62, 63, 64, 65, 66, 67, 68, 69, 70, 71, 72, 73,
  74, 75, 76, 77, 78, 79, 80, 81, 82, 83, 84, 85, 86, 87, 88, 89, 90, 91, 92, 93, 94, 95, 96, 65,
  66, 67, 68, 69, 70, 71, 72, 73, 74, 75, 76, 77, 78, 79, 80, 81, 82, 83, 84, 85, 86, 87, 88, 89,
  90, 123, 124, 125, 126, 127, 128, 129, 130, 131, 132, 133, 134, 135, 136, 137, 138, 139, 140,
  141, 142, 143, 144, 145, 146, 147, 148, 149, 150, 151, 152, 153, 154, 155, 156, 157, 158, 159,
  160, 161, 162, 163, 164, 165, 166, 167, 168, 169, 170, 171, 172, 173, 174, 175, 176, 161, 178,
  163, 180, 165, 166, 183, 184, 169, 170, 171, 172, 189, 174, 175, 192, 193, 194, 195, 196, 197,
  198, 199, 200, 201, 202, 203, 204, 205, 206, 207, 208, 209, 210, 211, 212, 213, 214, 215, 216,
  217, 218, 219, 220, 221, 222, 223, 192, 193, 194, 195, 196, 197, 198, 199, 200, 201, 202, 203,
  204, 205, 206, 207, 208, 209, 210, 211, 212, 213, 214, 247, 216, 217, 218, 219, 220, 221, 222,
  255]

def conv8859_1 : List Nat := [
  0, 1, 2, 3, 4, 5, 6, 7, 8, 9, 10, 11, 12, 13, 14, 15, 16, 17, 18, 19, 20, 21, 22, 23, 24, 25,
  26, 27, 28, 29, 30, 31, 32, 33, 34, 35, 36, 37, 38, 39, 40, 41, 42, 43, 44, 45, 46, 47, 48, 49,
  50, 51, 52, 53, 54, 55, 56, 57, 58, 59, 60, 61, 62, 63, 64, 65, 66, 67, 68, 69, 70, 71, 72, 73,
  74, 75, 76, 77, 78, 79, 80, 81, 82, 83, 84, 85, 86, 87, 88, 89, 90, 91, 92, 93, 94, 95, 96, 65,
  66, 67, 68, 69, 70, 71, 72, 73, 74, 75, 76, 77, 78, 79, 80, 81, 82, 83, 84, 85, 86, 87, 88, 89,
  90, 123, 124, 125, 126, 127, 128, 129, 130, 131, 132, 133, 134, 135, 136, 137, 138, 139, 140,
  141, 142, 143, 144, 145, 146, 147, 148, 149, 150, 151, 152, 153, 154, 155, 156, 157, 158, 159,
  160, 161, 162, 163, 164, 165, 166, 167, 168, 169, 170, 171, 172, 173, 174, 175, 176, 177, 178,
  179, 180, 181, 182, 183, 184, 185, 186, 187, 188, 189, 190, 191, 192, 193, 194, 195, 196, 197,
  198, 199, 200, 201, 202, 203, 204, 205, 206, 207, 208, 209, 210, 211, 212, 213, 214, 215, 216,
  217, 218, 219, 220, 221, 222, 223, 192, 193, 194, 195, 196, 197, 198, 199, 200, 201, 202, 203,
  204, 205, 206, 207, 208, 209, 210, 211, 212, 213, 214, 247, 216, 217, 218, 219, 220, 221, 222,
  255]

def unicLatin2 : List Nat := [
  0, 1, 2, 3, 4, 5, 6, 7, 8, 9, 10, 11, 12, 13, 14, 15, 16, 17, 18, 19, 20, 21, 22, 23, 24, 25,
  26, 27, 28, 29, 30, 31, 32, 33, 34, 35, 36, 37, 38, 39, 40, 41, 42, 43, 44, 45, 46, 47, 48, 49,
  50, 51, 52, 53, 54, 55, 56, 57, 58, 59, 60, 61, 62, 63, 64, 65, 66, 67, 68, 69, 70, 71, 72, 73,
  74, 75, 76, 77, 78, 79, 80, 81, 82, 83, 84, 85, 86, 87, 88, 89, 90, 91, 92, 93, 94, 95, 96, 97,
  98, 99, 100, 101, 102, 103, 104, 105, 106, 107, 108, 109, 110, 111, 112, 113, 114, 115, 116,
  117, 118, 119, 120, 121, 122, 123, 124, 125, 126, 127, 128, 129, 130, 131, 132, 133, 134, 135,
  136, 137, 138, 139, 140, 141, 142, 143, 144, 145, 146, 147, 148, 149, 150, 151, 152, 153, 154,
  155, 156, 157, 158, 159, 160, 260, 728, 321, 164, 317, 346, 167, 168, 352, 350, 356, 377, 173,
  381, 379, 176, 261, 731, 322, 180, 318, 347, 711, 184, 353, 351, 357, 378, 733, 382, 380, 340,
  193, 194, 258, 196, 313, 262, 199, 268, 201, 280, 203, 282, 205, 206, 270, 272, 323, 327, 211,
  212, 336, 214, 215, 344, 366, 218, 368, 220, 221, 354, 223, 341, 225, 226, 259, 228, 314, 263,
  231, 269, 233, 281, 235, 283, 237, 238, 271, 273, 324, 328, 243, 244, 337, 246, 247, 345, 367,
  250, 369, 252, 253, 355, 729]

def unicLatin1 : List Nat := [
  0, 1, 2, 3, 4, 5, 6, 7, 8, 9, 10, 11, 12, 13, 14, 15, 16, 17, 18, 19, 20, 21, 22, 23, 24, 25,
  26, 27, 28, 29, 30, 31, 32, 33, 34, 35, 36, 37, 38, 39, 40, 41, 42, 43, 44, 45, 46, 47, 48, 49,
  50, 51, 52, 53, 54, 55, 56, 57, 58, 59, 60, 61, 62, 63, 64, 65, 66, 67, 68, 69, 70, 71, 72, 73,
  74, 75, 76, 77, 78, 79, 80, 81, 82, 83, 84, 85, 86, 87, 88, 89, 90, 91, 92, 93, 94, 95, 96, 97,
  98, 99, 100, 101, 102, 103, 104, 105, 106, 107, 108, 109, 110, 111, 112, 113, 114, 115, 116,
  117, 118, 119, 120, 121, 122, 123, 124, 125, 126, 127, 128, 129, 130, 131, 132, 133, 134, 135,
  136, 137, 138, 139, 140, 141, 142, 143, 144, 145, 146, 147, 148, 149, 150, 151, 152, 153, 154,
  155, 156, 157, 158, 159, 160, 161, 162, 163, 164, 165, 166, 167, 168, 169, 170, 171, 172, 173,
  174, 175, 176, 177, 178, 179, 180, 181, 182, 183, 184, 185, 186, 187, 188, 189, 190, 191, 192,
  193, 194, 195, 196, 197, 198, 199, 200, 201, 202, 203, 204, 205, 206, 207, 208, 209, 210, 211,
  212, 213, 214, 215, 216, 217, 218, 219, 220, 221, 222, 223, 224, 225, 226, 227, 228, 229, 230,
  231, 232, 233, 234, 235, 236, 237, 238, 239, 240, 241, 242, 243, 244, 245, 246, 247, 248, 249,
  250, 251, 252, 253, 254, 255]

def caseTablesWin : List (List Nat) := [ansiconv, csconv, csconv, conv1252, conv1252, conv1252]

def caseTablesIso : List (List Nat) :=
  [ansiconv, conv8859_2, conv8859_2, conv8859_1, conv8859_1, conv8859_1]

/-- There is none for the code 0. -/
def unicTablesIso : List (List Nat) :=
  [[], unicLatin2, unicLatin2, unicLatin1, unicLatin1, unicLatin1]

def caseTable (code : Nat) : List Nat :=
  ((if 128 ≤ code then caseTablesIso else caseTablesWin)[code % 128]?).getD []

def unicTable (code : Nat) : List Nat := (unicTablesIso[code % 128]?).getD []

/-- The order of a Unicode character. -/
def orderOf (u : Nat) : Nat :=
  if u < 65 then 16 * u else (unicodeOrder[u - 65]?).getD TERMCH

end Sql602.Collation
