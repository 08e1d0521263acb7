import ExtensibleRegex.Text.CaseRow

/-!
# Simple case folding

Matching without regard to case compares characters by their simple case folding. The two code
points outside ASCII that fold into it (the long s and the Kelvin sign) are left as they are, so
that ASCII letters only ever meet ASCII letters.
-/

namespace ExtensibleRegex

/-- The simple case foldings, outside of the two that would cross into ASCII. -/
def foldRows : List CaseRow :=
  [⟨65, 90, 1, 32, 0⟩, ⟨181, 181, 1, 775, 0⟩, ⟨192, 214, 1, 32, 0⟩, ⟨216, 222, 1, 32, 0⟩,
   ⟨256, 302, 2, 1, 0⟩, ⟨306, 310, 2, 1, 0⟩, ⟨313, 327, 2, 1, 0⟩, ⟨330, 374, 2, 1, 0⟩,
   ⟨376, 376, 1, 0, 121⟩, ⟨377, 381, 2, 1, 0⟩, ⟨385, 385, 1, 210, 0⟩, ⟨386, 388, 2, 1, 0⟩,
   ⟨390, 390, 1, 206, 0⟩, ⟨391, 391, 1, 1, 0⟩, ⟨393, 394, 1, 205, 0⟩, ⟨395, 395, 1, 1, 0⟩,
   ⟨398, 398, 1, 79, 0⟩, ⟨399, 399, 1, 202, 0⟩, ⟨400, 400, 1, 203, 0⟩, ⟨401, 401, 1, 1, 0⟩,
   ⟨403, 403, 1, 205, 0⟩, ⟨404, 404, 1, 207, 0⟩, ⟨406, 406, 1, 211, 0⟩, ⟨407, 407, 1, 209, 0⟩,
   ⟨408, 408, 1, 1, 0⟩, ⟨412, 412, 1, 211, 0⟩, ⟨413, 413, 1, 213, 0⟩, ⟨415, 415, 1, 214, 0⟩,
   ⟨416, 420, 2, 1, 0⟩, ⟨422, 422, 1, 218, 0⟩, ⟨423, 423, 1, 1, 0⟩, ⟨425, 425, 1, 218, 0⟩,
   ⟨428, 428, 1, 1, 0⟩, ⟨430, 430, 1, 218, 0⟩, ⟨431, 431, 1, 1, 0⟩, ⟨433, 434, 1, 217, 0⟩,
   ⟨435, 437, 2, 1, 0⟩, ⟨439, 439, 1, 219, 0⟩, ⟨440, 440, 1, 1, 0⟩, ⟨444, 444, 1, 1, 0⟩,
   ⟨452, 452, 1, 2, 0⟩, ⟨453, 453, 1, 1, 0⟩, ⟨455, 455, 1, 2, 0⟩, ⟨456, 456, 1, 1, 0⟩,
   ⟨458, 458, 1, 2, 0⟩, ⟨459, 475, 2, 1, 0⟩, ⟨478, 494, 2, 1, 0⟩, ⟨497, 497, 1, 2, 0⟩,
   ⟨498, 500, 2, 1, 0⟩, ⟨502, 502, 1, 0, 97⟩, ⟨503, 503, 1, 0, 56⟩, ⟨504, 542, 2, 1, 0⟩,
   ⟨544, 544, 1, 0, 130⟩, ⟨546, 562, 2, 1, 0⟩, ⟨570, 570, 1, 10795, 0⟩, ⟨571, 571, 1, 1, 0⟩,
   ⟨573, 573, 1, 0, 163⟩, ⟨574, 574, 1, 10792, 0⟩, ⟨577, 577, 1, 1, 0⟩, ⟨579, 579, 1, 0, 195⟩,
   ⟨580, 580, 1, 69, 0⟩, ⟨581, 581, 1, 71, 0⟩, ⟨582, 590, 2, 1, 0⟩, ⟨837, 837, 1, 116, 0⟩,
   ⟨880, 882, 2, 1, 0⟩, ⟨886, 886, 1, 1, 0⟩, ⟨895, 895, 1, 116, 0⟩, ⟨902, 902, 1, 38, 0⟩,
   ⟨904, 906, 1, 37, 0⟩, ⟨908, 908, 1, 64, 0⟩, ⟨910, 911, 1, 63, 0⟩, ⟨913, 929, 1, 32, 0⟩,
   ⟨931, 939, 1, 32, 0⟩, ⟨962, 962, 1, 1, 0⟩, ⟨975, 975, 1, 8, 0⟩, ⟨976, 976, 1, 0, 30⟩,
   ⟨977, 977, 1, 0, 25⟩, ⟨981, 981, 1, 0, 15⟩, ⟨982, 982, 1, 0, 22⟩, ⟨984, 1006, 2, 1, 0⟩,
   ⟨1008, 1008, 1, 0, 54⟩, ⟨1009, 1009, 1, 0, 48⟩, ⟨1012, 1012, 1, 0, 60⟩,
   ⟨1013, 1013, 1, 0, 64⟩, ⟨1015, 1015, 1, 1, 0⟩, ⟨1017, 1017, 1, 0, 7⟩, ⟨1018, 1018, 1, 1, 0⟩,
   ⟨1021, 1023, 1, 0, 130⟩, ⟨1024, 1039, 1, 80, 0⟩, ⟨1040, 1071, 1, 32, 0⟩,
   ⟨1120, 1152, 2, 1, 0⟩, ⟨1162, 1214, 2, 1, 0⟩, ⟨1216, 1216, 1, 15, 0⟩, ⟨1217, 1229, 2, 1, 0⟩,
   ⟨1232, 1326, 2, 1, 0⟩, ⟨1329, 1366, 1, 48, 0⟩, ⟨4256, 4293, 1, 7264, 0⟩,
   ⟨4295, 4295, 1, 7264, 0⟩, ⟨4301, 4301, 1, 7264, 0⟩, ⟨5112, 5117, 1, 0, 8⟩,
   ⟨7296, 7296, 1, 0, 6222⟩, ⟨7297, 7297, 1, 0, 6221⟩, ⟨7298, 7298, 1, 0, 6212⟩,
   ⟨7299, 7300, 1, 0, 6210⟩, ⟨7301, 7301, 1, 0, 6211⟩, ⟨7302, 7302, 1, 0, 6204⟩,
   ⟨7303, 7303, 1, 0, 6180⟩, ⟨7304, 7304, 1, 35267, 0⟩, ⟨7312, 7354, 1, 0, 3008⟩,
   ⟨7357, 7359, 1, 0, 3008⟩, ⟨7680, 7828, 2, 1, 0⟩, ⟨7835, 7835, 1, 0, 58⟩,
   ⟨7838, 7838, 1, 0, 7615⟩, ⟨7840, 7934, 2, 1, 0⟩, ⟨7944, 7951, 1, 0, 8⟩, ⟨7960, 7965, 1, 0, 8⟩,
   ⟨7976, 7983, 1, 0, 8⟩, ⟨7992, 7999, 1, 0, 8⟩, ⟨8008, 8013, 1, 0, 8⟩, ⟨8025, 8031, 2, 0, 8⟩,
   ⟨8040, 8047, 1, 0, 8⟩, ⟨8072, 8079, 1, 0, 8⟩, ⟨8088, 8095, 1, 0, 8⟩, ⟨8104, 8111, 1, 0, 8⟩,
   ⟨8120, 8121, 1, 0, 8⟩, ⟨8122, 8123, 1, 0, 74⟩, ⟨8124, 8124, 1, 0, 9⟩,
   ⟨8126, 8126, 1, 0, 7173⟩, ⟨8136, 8139, 1, 0, 86⟩, ⟨8140, 8140, 1, 0, 9⟩,
   ⟨8152, 8153, 1, 0, 8⟩, ⟨8154, 8155, 1, 0, 100⟩, ⟨8168, 8169, 1, 0, 8⟩,
   ⟨8170, 8171, 1, 0, 112⟩, ⟨8172, 8172, 1, 0, 7⟩, ⟨8184, 8185, 1, 0, 128⟩,
   ⟨8186, 8187, 1, 0, 126⟩, ⟨8188, 8188, 1, 0, 9⟩, ⟨8486, 8486, 1, 0, 7517⟩,
   ⟨8491, 8491, 1, 0, 8262⟩, ⟨8498, 8498, 1, 28, 0⟩, ⟨8544, 8559, 1, 16, 0⟩,
   ⟨8579, 8579, 1, 1, 0⟩, ⟨9398, 9423, 1, 26, 0⟩, ⟨11264, 11311, 1, 48, 0⟩,
   ⟨11360, 11360, 1, 1, 0⟩, ⟨11362, 11362, 1, 0, 10743⟩, ⟨11363, 11363, 1, 0, 3814⟩,
   ⟨11364, 11364, 1, 0, 10727⟩, ⟨11367, 11371, 2, 1, 0⟩, ⟨11373, 11373, 1, 0, 10780⟩,
   ⟨11374, 11374, 1, 0, 10749⟩, ⟨11375, 11375, 1, 0, 10783⟩, ⟨11376, 11376, 1, 0, 10782⟩,
   ⟨11378, 11378, 1, 1, 0⟩, ⟨11381, 11381, 1, 1, 0⟩, ⟨11390, 11391, 1, 0, 10815⟩,
   ⟨11392, 11490, 2, 1, 0⟩, ⟨11499, 11501, 2, 1, 0⟩, ⟨11506, 11506, 1, 1, 0⟩,
   ⟨42560, 42604, 2, 1, 0⟩, ⟨42624, 42650, 2, 1, 0⟩, ⟨42786, 42798, 2, 1, 0⟩,
   ⟨42802, 42862, 2, 1, 0⟩, ⟨42873, 42875, 2, 1, 0⟩, ⟨42877, 42877, 1, 0, 35332⟩,
   ⟨42878, 42886, 2, 1, 0⟩, ⟨42891, 42891, 1, 1, 0⟩, ⟨42893, 42893, 1, 0, 42280⟩,
   ⟨42896, 42898, 2, 1, 0⟩, ⟨42902, 42920, 2, 1, 0⟩, ⟨42922, 42922, 1, 0, 42308⟩,
   ⟨42923, 42923, 1, 0, 42319⟩, ⟨42924, 42924, 1, 0, 42315⟩, ⟨42925, 42925, 1, 0, 42305⟩,
   ⟨42926, 42926, 1, 0, 42308⟩, ⟨42928, 42928, 1, 0, 42258⟩, ⟨42929, 42929, 1, 0, 42282⟩,
   ⟨42930, 42930, 1, 0, 42261⟩, ⟨42931, 42931, 1, 928, 0⟩, ⟨42932, 42946, 2, 1, 0⟩,
   ⟨42948, 42948, 1, 0, 48⟩, ⟨42949, 42949, 1, 0, 42307⟩, ⟨42950, 42950, 1, 0, 35384⟩,
   ⟨42951, 42953, 2, 1, 0⟩, ⟨42960, 42960, 1, 1, 0⟩, ⟨42966, 42968, 2, 1, 0⟩,
   ⟨42997, 42997, 1, 1, 0⟩, ⟨43888, 43967, 1, 0, 38864⟩, ⟨65313, 65338, 1, 32, 0⟩,
   ⟨66560, 66599, 1, 40, 0⟩, ⟨66736, 66771, 1, 40, 0⟩, ⟨66928, 66964, 2, 39, 0⟩,
   ⟨66929, 66937, 2, 39, 0⟩, ⟨66941, 66953, 2, 39, 0⟩, ⟨66957, 66961, 2, 39, 0⟩,
   ⟨66965, 66965, 1, 39, 0⟩, ⟨68736, 68786, 1, 64, 0⟩, ⟨71840, 71871, 1, 32, 0⟩,
   ⟨93760, 93791, 1, 32, 0⟩, ⟨125184, 125217, 1, 34, 0⟩]

/-- The simple case folding of a code point. -/
def foldCase (n : Nat) : Nat := mapCase foldRows n

/-- The code points that fold to the same code point as `n`. -/
def caseOrbit (n : Nat) : List Nat :=
  let f := foldCase n
  n :: f :: casePreimages foldRows f

theorem mem_caseOrbit_self (n : Nat) : n ∈ caseOrbit n := by simp [caseOrbit]

end ExtensibleRegex
