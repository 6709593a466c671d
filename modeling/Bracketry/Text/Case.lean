import Bracketry.Text.Toggles

/-
  Case folding and lower case.

  Case folding maps each character to one character, such
  that two characters differ in case only when they fold
  alike.  Lower case maps texts: a capital I with a dot
  gives two characters, and a capital sigma depends on the
  characters around it.

  The tables hold the code points from 128 on; ASCII is
  decided without them.  Lower case is that of Unicode 17,
  and case folding, which serves searches, that of Unicode
  16.

  Key definitions include:
    * `foldChar`
    * `Text.lowercase`
-/

------------------------------------------------------------
-- Runs of Case Pairs
------------------------------------------------------------

namespace Bracketry

/-
  Every `step`-th code point from `first` to `last` has the
  partner at the same distance behind `target`.
-/
structure CaseRun where
  first : Nat
  last : Nat
  step : Nat
  target : Nat

namespace CaseRun

/- The partner of a code point; itself without one. -/
def partner
    (code : Nat) :
    List CaseRun → Nat
  | [] => code
  | run :: rest =>
      if code < run.first then code
      else if code ≤ run.last then
        if (code - run.first) % run.step = 0 then
          run.target + (code - run.first)
        else partner code rest
      else partner code rest

end CaseRun

end Bracketry

------------------------------------------------------------
-- Tables
------------------------------------------------------------

namespace Bracketry

namespace Case

/- Simple case folding. -/
def folding : List CaseRun :=
  [⟨181, 181, 1, 956⟩, ⟨192, 214, 1, 224⟩,
   ⟨216, 222, 1, 248⟩, ⟨256, 302, 2, 257⟩,
   ⟨306, 310, 2, 307⟩, ⟨313, 327, 2, 314⟩,
   ⟨330, 374, 2, 331⟩, ⟨376, 376, 1, 255⟩,
   ⟨377, 381, 2, 378⟩, ⟨383, 383, 1, 115⟩,
   ⟨385, 385, 1, 595⟩, ⟨386, 388, 2, 387⟩,
   ⟨390, 390, 1, 596⟩, ⟨391, 391, 1, 392⟩,
   ⟨393, 394, 1, 598⟩, ⟨395, 395, 1, 396⟩,
   ⟨398, 398, 1, 477⟩, ⟨399, 399, 1, 601⟩,
   ⟨400, 400, 1, 603⟩, ⟨401, 401, 1, 402⟩,
   ⟨403, 403, 1, 608⟩, ⟨404, 404, 1, 611⟩,
   ⟨406, 406, 1, 617⟩, ⟨407, 407, 1, 616⟩,
   ⟨408, 408, 1, 409⟩, ⟨412, 412, 1, 623⟩,
   ⟨413, 413, 1, 626⟩, ⟨415, 415, 1, 629⟩,
   ⟨416, 420, 2, 417⟩, ⟨422, 422, 1, 640⟩,
   ⟨423, 423, 1, 424⟩, ⟨425, 425, 1, 643⟩,
   ⟨428, 428, 1, 429⟩, ⟨430, 430, 1, 648⟩,
   ⟨431, 431, 1, 432⟩, ⟨433, 434, 1, 650⟩,
   ⟨435, 437, 2, 436⟩, ⟨439, 439, 1, 658⟩,
   ⟨440, 440, 1, 441⟩, ⟨444, 444, 1, 445⟩,
   ⟨452, 452, 1, 454⟩, ⟨453, 453, 1, 454⟩,
   ⟨455, 455, 1, 457⟩, ⟨456, 456, 1, 457⟩,
   ⟨458, 458, 1, 460⟩, ⟨459, 475, 2, 460⟩,
   ⟨478, 494, 2, 479⟩, ⟨497, 497, 1, 499⟩,
   ⟨498, 500, 2, 499⟩, ⟨502, 502, 1, 405⟩,
   ⟨503, 503, 1, 447⟩, ⟨504, 542, 2, 505⟩,
   ⟨544, 544, 1, 414⟩, ⟨546, 562, 2, 547⟩,
   ⟨570, 570, 1, 11365⟩, ⟨571, 571, 1, 572⟩,
   ⟨573, 573, 1, 410⟩, ⟨574, 574, 1, 11366⟩,
   ⟨577, 577, 1, 578⟩, ⟨579, 579, 1, 384⟩,
   ⟨580, 580, 1, 649⟩, ⟨581, 581, 1, 652⟩,
   ⟨582, 590, 2, 583⟩, ⟨837, 837, 1, 953⟩,
   ⟨880, 882, 2, 881⟩, ⟨886, 886, 1, 887⟩,
   ⟨895, 895, 1, 1011⟩, ⟨902, 902, 1, 940⟩,
   ⟨904, 906, 1, 941⟩, ⟨908, 908, 1, 972⟩,
   ⟨910, 911, 1, 973⟩, ⟨913, 929, 1, 945⟩,
   ⟨931, 939, 1, 963⟩, ⟨962, 962, 1, 963⟩,
   ⟨975, 975, 1, 983⟩, ⟨976, 976, 1, 946⟩,
   ⟨977, 977, 1, 952⟩, ⟨981, 981, 1, 966⟩,
   ⟨982, 982, 1, 960⟩, ⟨984, 1006, 2, 985⟩,
   ⟨1008, 1008, 1, 954⟩, ⟨1009, 1009, 1, 961⟩,
   ⟨1012, 1012, 1, 952⟩, ⟨1013, 1013, 1, 949⟩,
   ⟨1015, 1015, 1, 1016⟩, ⟨1017, 1017, 1, 1010⟩,
   ⟨1018, 1018, 1, 1019⟩, ⟨1021, 1023, 1, 891⟩,
   ⟨1024, 1039, 1, 1104⟩, ⟨1040, 1071, 1, 1072⟩,
   ⟨1120, 1152, 2, 1121⟩, ⟨1162, 1214, 2, 1163⟩,
   ⟨1216, 1216, 1, 1231⟩, ⟨1217, 1229, 2, 1218⟩,
   ⟨1232, 1326, 2, 1233⟩, ⟨1329, 1366, 1, 1377⟩,
   ⟨4256, 4293, 1, 11520⟩, ⟨4295, 4295, 1, 11559⟩,
   ⟨4301, 4301, 1, 11565⟩, ⟨5112, 5117, 1, 5104⟩,
   ⟨7296, 7296, 1, 1074⟩, ⟨7297, 7297, 1, 1076⟩,
   ⟨7298, 7298, 1, 1086⟩, ⟨7299, 7300, 1, 1089⟩,
   ⟨7301, 7301, 1, 1090⟩, ⟨7302, 7302, 1, 1098⟩,
   ⟨7303, 7303, 1, 1123⟩, ⟨7304, 7304, 1, 42571⟩,
   ⟨7305, 7305, 1, 7306⟩, ⟨7312, 7354, 1, 4304⟩,
   ⟨7357, 7359, 1, 4349⟩, ⟨7680, 7828, 2, 7681⟩,
   ⟨7835, 7835, 1, 7777⟩, ⟨7838, 7838, 1, 223⟩,
   ⟨7840, 7934, 2, 7841⟩, ⟨7944, 7951, 1, 7936⟩,
   ⟨7960, 7965, 1, 7952⟩, ⟨7976, 7983, 1, 7968⟩,
   ⟨7992, 7999, 1, 7984⟩, ⟨8008, 8013, 1, 8000⟩,
   ⟨8025, 8031, 2, 8017⟩, ⟨8040, 8047, 1, 8032⟩,
   ⟨8072, 8079, 1, 8064⟩, ⟨8088, 8095, 1, 8080⟩,
   ⟨8104, 8111, 1, 8096⟩, ⟨8120, 8121, 1, 8112⟩,
   ⟨8122, 8123, 1, 8048⟩, ⟨8124, 8124, 1, 8115⟩,
   ⟨8126, 8126, 1, 953⟩, ⟨8136, 8139, 1, 8050⟩,
   ⟨8140, 8140, 1, 8131⟩, ⟨8147, 8147, 1, 912⟩,
   ⟨8152, 8153, 1, 8144⟩, ⟨8154, 8155, 1, 8054⟩,
   ⟨8163, 8163, 1, 944⟩, ⟨8168, 8169, 1, 8160⟩,
   ⟨8170, 8171, 1, 8058⟩, ⟨8172, 8172, 1, 8165⟩,
   ⟨8184, 8185, 1, 8056⟩, ⟨8186, 8187, 1, 8060⟩,
   ⟨8188, 8188, 1, 8179⟩, ⟨8486, 8486, 1, 969⟩,
   ⟨8490, 8490, 1, 107⟩, ⟨8491, 8491, 1, 229⟩,
   ⟨8498, 8498, 1, 8526⟩, ⟨8544, 8559, 1, 8560⟩,
   ⟨8579, 8579, 1, 8580⟩, ⟨9398, 9423, 1, 9424⟩,
   ⟨11264, 11311, 1, 11312⟩, ⟨11360, 11360, 1, 11361⟩,
   ⟨11362, 11362, 1, 619⟩, ⟨11363, 11363, 1, 7549⟩,
   ⟨11364, 11364, 1, 637⟩, ⟨11367, 11371, 2, 11368⟩,
   ⟨11373, 11373, 1, 593⟩, ⟨11374, 11374, 1, 625⟩,
   ⟨11375, 11375, 1, 592⟩, ⟨11376, 11376, 1, 594⟩,
   ⟨11378, 11378, 1, 11379⟩, ⟨11381, 11381, 1, 11382⟩,
   ⟨11390, 11391, 1, 575⟩, ⟨11392, 11490, 2, 11393⟩,
   ⟨11499, 11501, 2, 11500⟩, ⟨11506, 11506, 1, 11507⟩,
   ⟨42560, 42604, 2, 42561⟩, ⟨42624, 42650, 2, 42625⟩,
   ⟨42786, 42798, 2, 42787⟩, ⟨42802, 42862, 2, 42803⟩,
   ⟨42873, 42875, 2, 42874⟩, ⟨42877, 42877, 1, 7545⟩,
   ⟨42878, 42886, 2, 42879⟩, ⟨42891, 42891, 1, 42892⟩,
   ⟨42893, 42893, 1, 613⟩, ⟨42896, 42898, 2, 42897⟩,
   ⟨42902, 42920, 2, 42903⟩, ⟨42922, 42922, 1, 614⟩,
   ⟨42923, 42923, 1, 604⟩, ⟨42924, 42924, 1, 609⟩,
   ⟨42925, 42925, 1, 620⟩, ⟨42926, 42926, 1, 618⟩,
   ⟨42928, 42928, 1, 670⟩, ⟨42929, 42929, 1, 647⟩,
   ⟨42930, 42930, 1, 669⟩, ⟨42931, 42931, 1, 43859⟩,
   ⟨42932, 42946, 2, 42933⟩, ⟨42948, 42948, 1, 42900⟩,
   ⟨42949, 42949, 1, 642⟩, ⟨42950, 42950, 1, 7566⟩,
   ⟨42951, 42953, 2, 42952⟩, ⟨42955, 42955, 1, 612⟩,
   ⟨42956, 42956, 1, 42957⟩, ⟨42960, 42960, 1, 42961⟩,
   ⟨42966, 42970, 2, 42967⟩, ⟨42972, 42972, 1, 411⟩,
   ⟨42997, 42997, 1, 42998⟩, ⟨43888, 43967, 1, 5024⟩,
   ⟨64261, 64261, 1, 64262⟩, ⟨65313, 65338, 1, 65345⟩,
   ⟨66560, 66599, 1, 66600⟩, ⟨66736, 66771, 1, 66776⟩,
   ⟨66928, 66938, 1, 66967⟩, ⟨66940, 66954, 1, 66979⟩,
   ⟨66956, 66962, 1, 66995⟩, ⟨66964, 66965, 1, 67003⟩,
   ⟨68736, 68786, 1, 68800⟩, ⟨68944, 68965, 1, 68976⟩,
   ⟨71840, 71871, 1, 71872⟩, ⟨93760, 93791, 1, 93792⟩,
   ⟨125184, 125217, 1, 125218⟩]

/- The lower case of single characters. -/
def lower : List CaseRun :=
  [⟨192, 214, 1, 224⟩, ⟨216, 222, 1, 248⟩,
   ⟨256, 302, 2, 257⟩, ⟨306, 310, 2, 307⟩,
   ⟨313, 327, 2, 314⟩, ⟨330, 374, 2, 331⟩,
   ⟨376, 376, 1, 255⟩, ⟨377, 381, 2, 378⟩,
   ⟨385, 385, 1, 595⟩, ⟨386, 388, 2, 387⟩,
   ⟨390, 390, 1, 596⟩, ⟨391, 391, 1, 392⟩,
   ⟨393, 394, 1, 598⟩, ⟨395, 395, 1, 396⟩,
   ⟨398, 398, 1, 477⟩, ⟨399, 399, 1, 601⟩,
   ⟨400, 400, 1, 603⟩, ⟨401, 401, 1, 402⟩,
   ⟨403, 403, 1, 608⟩, ⟨404, 404, 1, 611⟩,
   ⟨406, 406, 1, 617⟩, ⟨407, 407, 1, 616⟩,
   ⟨408, 408, 1, 409⟩, ⟨412, 412, 1, 623⟩,
   ⟨413, 413, 1, 626⟩, ⟨415, 415, 1, 629⟩,
   ⟨416, 420, 2, 417⟩, ⟨422, 422, 1, 640⟩,
   ⟨423, 423, 1, 424⟩, ⟨425, 425, 1, 643⟩,
   ⟨428, 428, 1, 429⟩, ⟨430, 430, 1, 648⟩,
   ⟨431, 431, 1, 432⟩, ⟨433, 434, 1, 650⟩,
   ⟨435, 437, 2, 436⟩, ⟨439, 439, 1, 658⟩,
   ⟨440, 440, 1, 441⟩, ⟨444, 444, 1, 445⟩,
   ⟨452, 452, 1, 454⟩, ⟨453, 453, 1, 454⟩,
   ⟨455, 455, 1, 457⟩, ⟨456, 456, 1, 457⟩,
   ⟨458, 458, 1, 460⟩, ⟨459, 475, 2, 460⟩,
   ⟨478, 494, 2, 479⟩, ⟨497, 497, 1, 499⟩,
   ⟨498, 500, 2, 499⟩, ⟨502, 502, 1, 405⟩,
   ⟨503, 503, 1, 447⟩, ⟨504, 542, 2, 505⟩,
   ⟨544, 544, 1, 414⟩, ⟨546, 562, 2, 547⟩,
   ⟨570, 570, 1, 11365⟩, ⟨571, 571, 1, 572⟩,
   ⟨573, 573, 1, 410⟩, ⟨574, 574, 1, 11366⟩,
   ⟨577, 577, 1, 578⟩, ⟨579, 579, 1, 384⟩,
   ⟨580, 580, 1, 649⟩, ⟨581, 581, 1, 652⟩,
   ⟨582, 590, 2, 583⟩, ⟨880, 882, 2, 881⟩,
   ⟨886, 886, 1, 887⟩, ⟨895, 895, 1, 1011⟩,
   ⟨902, 902, 1, 940⟩, ⟨904, 906, 1, 941⟩,
   ⟨908, 908, 1, 972⟩, ⟨910, 911, 1, 973⟩,
   ⟨913, 929, 1, 945⟩, ⟨931, 939, 1, 963⟩,
   ⟨975, 975, 1, 983⟩, ⟨984, 1006, 2, 985⟩,
   ⟨1012, 1012, 1, 952⟩, ⟨1015, 1015, 1, 1016⟩,
   ⟨1017, 1017, 1, 1010⟩, ⟨1018, 1018, 1, 1019⟩,
   ⟨1021, 1023, 1, 891⟩, ⟨1024, 1039, 1, 1104⟩,
   ⟨1040, 1071, 1, 1072⟩, ⟨1120, 1152, 2, 1121⟩,
   ⟨1162, 1214, 2, 1163⟩, ⟨1216, 1216, 1, 1231⟩,
   ⟨1217, 1229, 2, 1218⟩, ⟨1232, 1326, 2, 1233⟩,
   ⟨1329, 1366, 1, 1377⟩, ⟨4256, 4293, 1, 11520⟩,
   ⟨4295, 4295, 1, 11559⟩, ⟨4301, 4301, 1, 11565⟩,
   ⟨5024, 5103, 1, 43888⟩, ⟨5104, 5109, 1, 5112⟩,
   ⟨7305, 7305, 1, 7306⟩, ⟨7312, 7354, 1, 4304⟩,
   ⟨7357, 7359, 1, 4349⟩, ⟨7680, 7828, 2, 7681⟩,
   ⟨7838, 7838, 1, 223⟩, ⟨7840, 7934, 2, 7841⟩,
   ⟨7944, 7951, 1, 7936⟩, ⟨7960, 7965, 1, 7952⟩,
   ⟨7976, 7983, 1, 7968⟩, ⟨7992, 7999, 1, 7984⟩,
   ⟨8008, 8013, 1, 8000⟩, ⟨8025, 8031, 2, 8017⟩,
   ⟨8040, 8047, 1, 8032⟩, ⟨8072, 8079, 1, 8064⟩,
   ⟨8088, 8095, 1, 8080⟩, ⟨8104, 8111, 1, 8096⟩,
   ⟨8120, 8121, 1, 8112⟩, ⟨8122, 8123, 1, 8048⟩,
   ⟨8124, 8124, 1, 8115⟩, ⟨8136, 8139, 1, 8050⟩,
   ⟨8140, 8140, 1, 8131⟩, ⟨8152, 8153, 1, 8144⟩,
   ⟨8154, 8155, 1, 8054⟩, ⟨8168, 8169, 1, 8160⟩,
   ⟨8170, 8171, 1, 8058⟩, ⟨8172, 8172, 1, 8165⟩,
   ⟨8184, 8185, 1, 8056⟩, ⟨8186, 8187, 1, 8060⟩,
   ⟨8188, 8188, 1, 8179⟩, ⟨8486, 8486, 1, 969⟩,
   ⟨8490, 8490, 1, 107⟩, ⟨8491, 8491, 1, 229⟩,
   ⟨8498, 8498, 1, 8526⟩, ⟨8544, 8559, 1, 8560⟩,
   ⟨8579, 8579, 1, 8580⟩, ⟨9398, 9423, 1, 9424⟩,
   ⟨11264, 11311, 1, 11312⟩, ⟨11360, 11360, 1, 11361⟩,
   ⟨11362, 11362, 1, 619⟩, ⟨11363, 11363, 1, 7549⟩,
   ⟨11364, 11364, 1, 637⟩, ⟨11367, 11371, 2, 11368⟩,
   ⟨11373, 11373, 1, 593⟩, ⟨11374, 11374, 1, 625⟩,
   ⟨11375, 11375, 1, 592⟩, ⟨11376, 11376, 1, 594⟩,
   ⟨11378, 11378, 1, 11379⟩, ⟨11381, 11381, 1, 11382⟩,
   ⟨11390, 11391, 1, 575⟩, ⟨11392, 11490, 2, 11393⟩,
   ⟨11499, 11501, 2, 11500⟩, ⟨11506, 11506, 1, 11507⟩,
   ⟨42560, 42604, 2, 42561⟩, ⟨42624, 42650, 2, 42625⟩,
   ⟨42786, 42798, 2, 42787⟩, ⟨42802, 42862, 2, 42803⟩,
   ⟨42873, 42875, 2, 42874⟩, ⟨42877, 42877, 1, 7545⟩,
   ⟨42878, 42886, 2, 42879⟩, ⟨42891, 42891, 1, 42892⟩,
   ⟨42893, 42893, 1, 613⟩, ⟨42896, 42898, 2, 42897⟩,
   ⟨42902, 42920, 2, 42903⟩, ⟨42922, 42922, 1, 614⟩,
   ⟨42923, 42923, 1, 604⟩, ⟨42924, 42924, 1, 609⟩,
   ⟨42925, 42925, 1, 620⟩, ⟨42926, 42926, 1, 618⟩,
   ⟨42928, 42928, 1, 670⟩, ⟨42929, 42929, 1, 647⟩,
   ⟨42930, 42930, 1, 669⟩, ⟨42931, 42931, 1, 43859⟩,
   ⟨42932, 42946, 2, 42933⟩, ⟨42948, 42948, 1, 42900⟩,
   ⟨42949, 42949, 1, 642⟩, ⟨42950, 42950, 1, 7566⟩,
   ⟨42951, 42953, 2, 42952⟩, ⟨42955, 42955, 1, 612⟩,
   ⟨42956, 42970, 2, 42957⟩, ⟨42972, 42972, 1, 411⟩,
   ⟨42997, 42997, 1, 42998⟩, ⟨65313, 65338, 1, 65345⟩,
   ⟨66560, 66599, 1, 66600⟩, ⟨66736, 66771, 1, 66776⟩,
   ⟨66928, 66938, 1, 66967⟩, ⟨66940, 66954, 1, 66979⟩,
   ⟨66956, 66962, 1, 66995⟩, ⟨66964, 66965, 1, 67003⟩,
   ⟨68736, 68786, 1, 68800⟩, ⟨68944, 68965, 1, 68976⟩,
   ⟨71840, 71871, 1, 71872⟩, ⟨93760, 93791, 1, 93792⟩,
   ⟨93856, 93880, 1, 93883⟩, ⟨125184, 125217, 1, 125218⟩]

/- Code points with the property Cased. -/
def cased : List Nat :=
  [170, 171, 181, 182, 186, 187, 192, 215, 216, 247, 248,
  443, 444, 448, 452, 660, 662, 697, 704, 706, 736, 741,
  837, 838, 880, 884, 886, 888, 890, 894, 895, 896, 902,
  903, 904, 907, 908, 909, 910, 930, 931, 1014, 1015, 1154,
  1162, 1328, 1329, 1367, 1376, 1417, 4256, 4294, 4295,
  4296, 4301, 4302, 4304, 4347, 4348, 4352, 5024, 5110,
  5112, 5118, 7296, 7307, 7312, 7355, 7357, 7360, 7424,
  7616, 7680, 7958, 7960, 7966, 7968, 8006, 8008, 8014,
  8016, 8024, 8025, 8026, 8027, 8028, 8029, 8030, 8031,
  8062, 8064, 8117, 8118, 8125, 8126, 8127, 8130, 8133,
  8134, 8141, 8144, 8148, 8150, 8156, 8160, 8173, 8178,
  8181, 8182, 8189, 8305, 8306, 8319, 8320, 8336, 8349,
  8450, 8451, 8455, 8456, 8458, 8468, 8469, 8470, 8473,
  8478, 8484, 8485, 8486, 8487, 8488, 8489, 8490, 8494,
  8495, 8501, 8505, 8506, 8508, 8512, 8517, 8522, 8526,
  8527, 8544, 8576, 8579, 8581, 9398, 9450, 11264, 11493,
  11499, 11503, 11506, 11508, 11520, 11558, 11559, 11560,
  11565, 11566, 42560, 42606, 42624, 42654, 42786, 42888,
  42891, 42895, 42896, 42973, 42993, 42999, 43000, 43003,
  43824, 43867, 43868, 43882, 43888, 43968, 64256, 64263,
  64275, 64280, 65313, 65339, 65345, 65371, 66560, 66640,
  66736, 66772, 66776, 66812, 66928, 66939, 66940, 66955,
  66956, 66963, 66964, 66966, 66967, 66978, 66979, 66994,
  66995, 67002, 67003, 67005, 67456, 67457, 67459, 67462,
  67463, 67505, 67506, 67515, 68736, 68787, 68800, 68851,
  68944, 68966, 68976, 68998, 71840, 71904, 93760, 93824,
  93856, 93881, 93883, 93908, 119808, 119893, 119894,
  119965, 119966, 119968, 119970, 119971, 119973, 119975,
  119977, 119981, 119982, 119994, 119995, 119996, 119997,
  120004, 120005, 120070, 120071, 120075, 120077, 120085,
  120086, 120093, 120094, 120122, 120123, 120127, 120128,
  120133, 120134, 120135, 120138, 120145, 120146, 120486,
  120488, 120513, 120514, 120539, 120540, 120571, 120572,
  120597, 120598, 120629, 120630, 120655, 120656, 120687,
  120688, 120713, 120714, 120745, 120746, 120771, 120772,
  120780, 122624, 122634, 122635, 122655, 122661, 122667,
  122928, 122990, 125184, 125252, 127280, 127306, 127312,
  127338, 127344, 127370]

/- Code points with the property Case_Ignorable. -/
def ignorable : List Nat :=
  [168, 169, 173, 174, 175, 176, 180, 181, 183, 185, 688,
  880, 884, 886, 890, 891, 900, 902, 903, 904, 1155, 1162,
  1369, 1370, 1375, 1376, 1425, 1470, 1471, 1472, 1473,
  1475, 1476, 1478, 1479, 1480, 1524, 1525, 1536, 1542,
  1552, 1563, 1564, 1565, 1600, 1601, 1611, 1632, 1648,
  1649, 1750, 1758, 1759, 1769, 1770, 1774, 1807, 1808,
  1809, 1810, 1840, 1867, 1958, 1969, 2027, 2038, 2042,
  2043, 2045, 2046, 2070, 2094, 2137, 2140, 2184, 2185,
  2192, 2194, 2199, 2208, 2249, 2307, 2362, 2363, 2364,
  2365, 2369, 2377, 2381, 2382, 2385, 2392, 2402, 2404,
  2417, 2418, 2433, 2434, 2492, 2493, 2497, 2501, 2509,
  2510, 2530, 2532, 2558, 2559, 2561, 2563, 2620, 2621,
  2625, 2627, 2631, 2633, 2635, 2638, 2641, 2642, 2672,
  2674, 2677, 2678, 2689, 2691, 2748, 2749, 2753, 2758,
  2759, 2761, 2765, 2766, 2786, 2788, 2810, 2816, 2817,
  2818, 2876, 2877, 2879, 2880, 2881, 2885, 2893, 2894,
  2901, 2903, 2914, 2916, 2946, 2947, 3008, 3009, 3021,
  3022, 3072, 3073, 3076, 3077, 3132, 3133, 3134, 3137,
  3142, 3145, 3146, 3150, 3157, 3159, 3170, 3172, 3201,
  3202, 3260, 3261, 3263, 3264, 3270, 3271, 3276, 3278,
  3298, 3300, 3328, 3330, 3387, 3389, 3393, 3397, 3405,
  3406, 3426, 3428, 3457, 3458, 3530, 3531, 3538, 3541,
  3542, 3543, 3633, 3634, 3636, 3643, 3654, 3663, 3761,
  3762, 3764, 3773, 3782, 3783, 3784, 3791, 3864, 3866,
  3893, 3894, 3895, 3896, 3897, 3898, 3953, 3967, 3968,
  3973, 3974, 3976, 3981, 3992, 3993, 4029, 4038, 4039,
  4141, 4145, 4146, 4152, 4153, 4155, 4157, 4159, 4184,
  4186, 4190, 4193, 4209, 4213, 4226, 4227, 4229, 4231,
  4237, 4238, 4253, 4254, 4348, 4349, 4957, 4960, 5906,
  5909, 5938, 5940, 5970, 5972, 6002, 6004, 6068, 6070,
  6071, 6078, 6086, 6087, 6089, 6100, 6103, 6104, 6109,
  6110, 6155, 6160, 6211, 6212, 6277, 6279, 6313, 6314,
  6432, 6435, 6439, 6441, 6450, 6451, 6457, 6460, 6679,
  6681, 6683, 6684, 6742, 6743, 6744, 6751, 6752, 6753,
  6754, 6755, 6757, 6765, 6771, 6781, 6783, 6784, 6823,
  6824, 6832, 6878, 6880, 6892, 6912, 6916, 6964, 6965,
  6966, 6971, 6972, 6973, 6978, 6979, 7019, 7028, 7040,
  7042, 7074, 7078, 7080, 7082, 7083, 7086, 7142, 7143,
  7144, 7146, 7149, 7150, 7151, 7154, 7212, 7220, 7222,
  7224, 7288, 7294, 7376, 7379, 7380, 7393, 7394, 7401,
  7405, 7406, 7412, 7413, 7416, 7418, 7468, 7531, 7544,
  7545, 7579, 7680, 8125, 8126, 8127, 8130, 8141, 8144,
  8157, 8160, 8173, 8176, 8189, 8191, 8203, 8208, 8216,
  8218, 8228, 8229, 8231, 8232, 8234, 8239, 8288, 8293,
  8294, 8304, 8305, 8306, 8319, 8320, 8336, 8349, 8400,
  8433, 11388, 11390, 11503, 11506, 11631, 11632, 11647,
  11648, 11744, 11776, 11823, 11824, 12293, 12294, 12330,
  12334, 12337, 12342, 12347, 12348, 12441, 12447, 12540,
  12543, 40981, 40982, 42232, 42238, 42508, 42509, 42607,
  42611, 42612, 42622, 42623, 42624, 42652, 42656, 42736,
  42738, 42752, 42786, 42864, 42865, 42888, 42891, 42993,
  42997, 43000, 43002, 43010, 43011, 43014, 43015, 43019,
  43020, 43045, 43047, 43052, 43053, 43204, 43206, 43232,
  43250, 43263, 43264, 43302, 43310, 43335, 43346, 43392,
  43395, 43443, 43444, 43446, 43450, 43452, 43454, 43471,
  43472, 43493, 43495, 43561, 43567, 43569, 43571, 43573,
  43575, 43587, 43588, 43596, 43597, 43632, 43633, 43644,
  43645, 43696, 43697, 43698, 43701, 43703, 43705, 43710,
  43712, 43713, 43714, 43741, 43742, 43756, 43758, 43763,
  43765, 43766, 43767, 43867, 43872, 43881, 43884, 44005,
  44006, 44008, 44009, 44013, 44014, 64286, 64287, 64434,
  64451, 65024, 65040, 65043, 65044, 65056, 65072, 65106,
  65107, 65109, 65110, 65279, 65280, 65287, 65288, 65294,
  65295, 65306, 65307, 65342, 65343, 65344, 65345, 65392,
  65393, 65438, 65440, 65507, 65508, 65529, 65532, 66045,
  66046, 66272, 66273, 66422, 66427, 67456, 67462, 67463,
  67505, 67506, 67515, 68097, 68100, 68101, 68103, 68108,
  68112, 68152, 68155, 68159, 68160, 68325, 68327, 68900,
  68904, 68942, 68943, 68969, 68974, 68975, 68976, 69291,
  69293, 69317, 69318, 69370, 69376, 69446, 69457, 69506,
  69510, 69633, 69634, 69688, 69703, 69744, 69745, 69747,
  69749, 69759, 69762, 69811, 69815, 69817, 69819, 69821,
  69822, 69826, 69827, 69837, 69838, 69888, 69891, 69927,
  69932, 69933, 69941, 70003, 70004, 70016, 70018, 70070,
  70079, 70089, 70093, 70095, 70096, 70191, 70194, 70196,
  70197, 70198, 70200, 70206, 70207, 70209, 70210, 70367,
  70368, 70371, 70379, 70400, 70402, 70459, 70461, 70464,
  70465, 70502, 70509, 70512, 70517, 70587, 70593, 70606,
  70607, 70608, 70609, 70610, 70611, 70625, 70627, 70712,
  70720, 70722, 70725, 70726, 70727, 70750, 70751, 70835,
  70841, 70842, 70843, 70847, 70849, 70850, 70852, 71090,
  71094, 71100, 71102, 71103, 71105, 71132, 71134, 71219,
  71227, 71229, 71230, 71231, 71233, 71339, 71340, 71341,
  71342, 71344, 71350, 71351, 71352, 71453, 71454, 71455,
  71456, 71458, 71462, 71463, 71468, 71727, 71736, 71737,
  71739, 71995, 71997, 71998, 71999, 72003, 72004, 72148,
  72152, 72154, 72156, 72160, 72161, 72193, 72203, 72243,
  72249, 72251, 72255, 72263, 72264, 72273, 72279, 72281,
  72284, 72330, 72343, 72344, 72346, 72544, 72545, 72546,
  72549, 72550, 72551, 72752, 72759, 72760, 72766, 72767,
  72768, 72850, 72872, 72874, 72881, 72882, 72884, 72885,
  72887, 73009, 73015, 73018, 73019, 73020, 73022, 73023,
  73030, 73031, 73032, 73104, 73106, 73109, 73110, 73111,
  73112, 73177, 73178, 73459, 73461, 73472, 73474, 73526,
  73531, 73536, 73537, 73538, 73539, 73562, 73563, 78896,
  78913, 78919, 78934, 90398, 90410, 90413, 90416, 92912,
  92917, 92976, 92983, 92992, 92996, 93504, 93507, 93547,
  93549, 94031, 94032, 94095, 94112, 94176, 94178, 94179,
  94181, 94194, 94196, 110576, 110580, 110581, 110588,
  110589, 110591, 113821, 113823, 113824, 113828, 118528,
  118574, 118576, 118599, 119143, 119146, 119155, 119171,
  119173, 119180, 119210, 119214, 119362, 119365, 121344,
  121399, 121403, 121453, 121461, 121462, 121476, 121477,
  121499, 121504, 121505, 121520, 122880, 122887, 122888,
  122905, 122907, 122914, 122915, 122917, 122918, 122923,
  122928, 122990, 123023, 123024, 123184, 123198, 123566,
  123567, 123628, 123632, 124139, 124144, 124398, 124400,
  124643, 124644, 124646, 124647, 124654, 124656, 124661,
  124662, 124671, 124672, 125136, 125143, 125252, 125260,
  127995, 128000, 917505, 917506, 917536, 917632, 917760,
  918000]

end Case

end Bracketry

------------------------------------------------------------
-- Characters
------------------------------------------------------------

namespace Bracketry

/- An ASCII capital letter. -/
def isAsciiUpper
    (code : Nat) :
    Bool :=
  65 ≤ code && code ≤ 90

/- The character that stands for all cases of this one. -/
def foldChar
    (c : Char) :
    Char :=
  if c.toNat < 128 then
    if isAsciiUpper c.toNat then Char.ofNat (c.toNat + 32)
    else c
  else Char.ofNat (CaseRun.partner c.toNat Case.folding)

/- The lower case of one character by itself. -/
def lowerChar
    (c : Char) :
    Char :=
  if c.toNat < 128 then
    if isAsciiUpper c.toNat then Char.ofNat (c.toNat + 32)
    else c
  else Char.ofNat (CaseRun.partner c.toNat Case.lower)

/- A letter that has a case. -/
def isCased
    (c : Char) :
    Bool :=
  if c.toNat < 128 then
    isAsciiUpper c.toNat ||
      (97 ≤ c.toNat && c.toNat ≤ 122)
  else Toggles.member Case.cased c.toNat

/- A character that the rule for sigma looks past. -/
def isCaseIgnorable
    (c : Char) :
    Bool :=
  if c.toNat < 128 then
    c.toNat = 39 || c = '.' || c = ':' || c = '^' ||
      c.toNat = 96
  else Toggles.member Case.ignorable c.toNat

end Bracketry

------------------------------------------------------------
-- Texts
------------------------------------------------------------

namespace Bracketry

namespace Text

/- The next letter that is not looked past has a case. -/
def nextIsCased
    (text : List Char) :
    Bool :=
  match text.dropWhile isCaseIgnorable with
  | [] => false
  | c :: _ => isCased c

/-
  Lower case behind characters that were passed, the last
  of them first.  A sigma that ends a word has a form of its
  own.
-/
def lowercaseFrom
    (passed : List Char) :
    List Char → List Char
  | [] => []
  | c :: rest =>
      let lower :=
        if c = 'Σ' then
          if nextIsCased passed && !nextIsCased rest then
            ['ς']
          else ['σ']
        else if c = 'İ' then ['i', Char.ofNat 775]
        else [lowerChar c]
      lower ++ lowercaseFrom (c :: passed) rest

/- A text in lower case. -/
def lowercase
    (text : List Char) :
    List Char :=
  lowercaseFrom [] text

end Text

end Bracketry
