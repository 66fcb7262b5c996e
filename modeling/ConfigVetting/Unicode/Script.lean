import ConfigVetting.Unicode.Runs

/-! # Scripts

The script of each character, and the names by which scripts are asked for.
-/

namespace ConfigVetting.Unicode

/-- The script of each code point. -/
def scriptRuns : Runs := Runs.ofLines [
  "65Zyyy26Latn6Zyyy26Latn47Zyyy1Latn15Zyyy1Latn5Zyyy23Latn1Zyyy31Latn1Zyyy449Latn39Zyyy5Latn",
  "5Zyyy2Bopo20Zyyy112Zinh4Grek1Zyyy3Grek2Zzzz4Grek1Zyyy1Grek4Zzzz1Grek1Zyyy1Grek1Zyyy3Grek",
  "1Zzzz1Grek1Zzzz20Grek1Zzzz63Grek14Copt16Grek133Cyrl2Zinh169Cyrl1Zzzz38Armn2Zzzz50Armn2Zzzz",
  "3Armn1Zzzz55Hebr8Zzzz27Hebr4Zzzz6Hebr11Zzzz5Arab1Zyyy6Arab1Zyyy14Arab1Zyyy3Arab1Zyyy32Arab",
  "1Zyyy10Arab11Zinh26Arab1Zinh108Arab1Zyyy34Arab14Syrc1Zzzz60Syrc2Zzzz3Syrc48Arab50Thaa14Zzzz",
  "59Nkoo2Zzzz3Nkoo46Samr2Zzzz15Samr1Zzzz28Mand2Zzzz1Mand1Zzzz11Syrc5Zzzz34Arab5Zzzz75Arab1Zyyy",
  "29Arab81Deva4Zinh15Deva2Zyyy26Deva4Beng1Zzzz8Beng2Zzzz2Beng2Zzzz22Beng1Zzzz7Beng1Zzzz1Beng",
  "3Zzzz4Beng2Zzzz9Beng2Zzzz2Beng2Zzzz4Beng8Zzzz1Beng4Zzzz2Beng1Zzzz5Beng2Zzzz25Beng2Zzzz3Guru",
  "1Zzzz6Guru4Zzzz2Guru2Zzzz22Guru1Zzzz7Guru1Zzzz2Guru1Zzzz2Guru1Zzzz2Guru2Zzzz1Guru1Zzzz5Guru",
  "4Zzzz2Guru2Zzzz3Guru3Zzzz1Guru7Zzzz4Guru1Zzzz1Guru7Zzzz17Guru10Zzzz3Gujr1Zzzz9Gujr1Zzzz3Gujr",
  "1Zzzz22Gujr1Zzzz7Gujr1Zzzz2Gujr1Zzzz5Gujr2Zzzz10Gujr1Zzzz3Gujr1Zzzz3Gujr2Zzzz1Gujr15Zzzz",
  "4Gujr2Zzzz12Gujr7Zzzz7Gujr1Zzzz3Orya1Zzzz8Orya2Zzzz2Orya2Zzzz22Orya1Zzzz7Orya1Zzzz2Orya1Zzzz",
  "5Orya2Zzzz9Orya2Zzzz2Orya2Zzzz3Orya7Zzzz3Orya4Zzzz2Orya1Zzzz5Orya2Zzzz18Orya10Zzzz2Taml1Zzzz",
  "6Taml3Zzzz3Taml1Zzzz4Taml3Zzzz2Taml1Zzzz1Taml1Zzzz2Taml3Zzzz2Taml3Zzzz3Taml3Zzzz12Taml4Zzzz",
  "5Taml3Zzzz3Taml1Zzzz4Taml2Zzzz1Taml6Zzzz1Taml14Zzzz21Taml5Zzzz13Telu1Zzzz3Telu1Zzzz23Telu",
  "1Zzzz16Telu2Zzzz9Telu1Zzzz3Telu1Zzzz4Telu7Zzzz2Telu1Zzzz3Telu1Zzzz2Telu2Zzzz4Telu2Zzzz10Telu",
  "7Zzzz9Telu13Knda1Zzzz3Knda1Zzzz23Knda1Zzzz10Knda1Zzzz5Knda2Zzzz9Knda1Zzzz3Knda1Zzzz4Knda",
  "7Zzzz2Knda5Zzzz3Knda1Zzzz4Knda2Zzzz10Knda1Zzzz3Knda12Zzzz13Mlym1Zzzz3Mlym1Zzzz51Mlym1Zzzz",
  "3Mlym1Zzzz6Mlym4Zzzz16Mlym2Zzzz26Mlym1Zzzz3Sinh1Zzzz18Sinh3Zzzz24Sinh1Zzzz9Sinh1Zzzz1Sinh",
  "2Zzzz7Sinh3Zzzz1Sinh4Zzzz6Sinh1Zzzz1Sinh1Zzzz8Sinh6Zzzz10Sinh2Zzzz3Sinh12Zzzz58Thai4Zzzz",
  "1Zyyy28Thai37Zzzz2Laoo1Zzzz1Laoo1Zzzz5Laoo1Zzzz24Laoo1Zzzz1Laoo1Zzzz23Laoo2Zzzz5Laoo1Zzzz",
  "1Laoo1Zzzz7Laoo1Zzzz10Laoo2Zzzz4Laoo32Zzzz72Tibt1Zzzz36Tibt4Zzzz39Tibt1Zzzz36Tibt1Zzzz15Tibt",
  "1Zzzz7Tibt4Zyyy2Tibt37Zzzz160Mymr38Geor1Zzzz1Geor5Zzzz1Geor2Zzzz43Geor1Zyyy4Geor256Hang",
  "73Ethi1Zzzz4Ethi2Zzzz7Ethi1Zzzz1Ethi1Zzzz4Ethi2Zzzz41Ethi1Zzzz4Ethi2Zzzz33Ethi1Zzzz4Ethi",
  "2Zzzz7Ethi1Zzzz1Ethi1Zzzz4Ethi2Zzzz15Ethi1Zzzz57Ethi1Zzzz4Ethi2Zzzz67Ethi2Zzzz32Ethi3Zzzz",
  "26Ethi6Zzzz86Cher2Zzzz6Cher2Zzzz640Cans29Ogam3Zzzz75Runr3Zyyy11Runr7Zzzz22Tglg9Zzzz1Tglg",
  "21Hano2Zyyy9Zzzz20Buhd12Zzzz13Tagb1Zzzz3Tagb1Zzzz2Tagb12Zzzz94Khmr2Zzzz10Khmr6Zzzz10Khmr",
  "6Zzzz2Mong2Zyyy1Mong1Zyyy20Mong6Zzzz89Mong7Zzzz43Mong5Zzzz70Cans10Zzzz31Limb1Zzzz12Limb4Zzzz",
  "12Limb4Zzzz1Limb3Zzzz12Limb30Tale2Zzzz5Tale11Zzzz44Talu4Zzzz26Talu6Zzzz11Talu3Zzzz2Talu",
  "32Khmr28Bugi2Zzzz2Bugi63Lana1Zzzz29Lana2Zzzz11Lana6Zzzz10Lana6Zzzz14Lana2Zzzz46Zinh2Zzzz",
  "12Zinh20Zzzz77Bali1Zzzz50Bali64Sund52Batk8Zzzz4Batk56Lepc3Zzzz15Lepc3Zzzz3Lepc48Olck11Cyrl",
  "5Zzzz43Geor2Zzzz3Geor8Sund8Zzzz3Zinh1Zyyy13Zinh1Zyyy7Zinh4Zyyy1Zinh6Zyyy1Zinh3Zyyy2Zinh1Zyyy",
  "5Zzzz38Latn5Grek1Cyrl49Latn5Grek4Latn5Grek13Latn1Cyrl70Latn1Grek64Zinh256Latn22Grek2Zzzz",
  "6Grek2Zzzz38Grek2Zzzz6Grek2Zzzz8Grek1Zzzz1Grek1Zzzz1Grek1Zzzz1Grek1Zzzz31Grek2Zzzz53Grek",
  "1Zzzz15Grek1Zzzz14Grek2Zzzz6Grek1Zzzz19Grek2Zzzz3Grek1Zzzz9Grek1Zzzz12Zyyy2Zinh87Zyyy1Zzzz",
  "11Zyyy1Latn2Zzzz11Zyyy1Latn15Zyyy1Zzzz13Latn3Zzzz34Zyyy14Zzzz33Zinh15Zzzz38Zyyy1Grek3Zyyy",
  "2Latn6Zyyy1Latn27Zyyy1Latn17Zyyy41Latn3Zyyy4Zzzz666Zyyy22Zzzz11Zyyy21Zzzz928Zyyy256Brai",
  "628Zyyy2Zzzz138Zyyy96Glag32Latn116Copt5Zzzz7Copt38Geor1Zzzz1Geor5Zzzz1Geor2Zzzz56Tfng7Zzzz",
  "2Tfng14Zzzz1Tfng23Ethi9Zzzz7Ethi1Zzzz7Ethi1Zzzz7Ethi1Zzzz7Ethi1Zzzz7Ethi1Zzzz7Ethi1Zzzz7Ethi",
  "1Zzzz7Ethi1Zzzz32Cyrl94Zyyy34Zzzz26Hani1Zzzz89Hani12Zzzz214Hani26Zzzz21Zyyy1Hani1Zyyy1Hani",
  "25Zyyy9Hani4Zinh2Hang8Zyyy4Hani4Zyyy1Zzzz86Hira2Zzzz2Zinh2Zyyy3Hira1Zyyy90Kana2Zyyy3Kana",
  "5Zzzz43Bopo1Zzzz94Hang1Zzzz16Zyyy32Bopo38Zyyy9Zzzz1Zyyy16Kana31Hang1Zzzz64Zyyy31Hang81Zyyy",
  "47Kana1Zyyy88Kana168Zyyy6592Hani64Zyyy20992Hani1165Yiii3Zzzz55Yiii9Zzzz48Lisu300Vaii20Zzzz",
  "96Cyrl88Bamu8Zzzz34Zyyy102Latn3Zyyy82Latn20Zzzz15Latn45Sylo3Zzzz10Zyyy6Zzzz56Phag8Zzzz70Saur",
  "8Zzzz12Saur6Zzzz32Deva46Kali1Zyyy1Kali36Rjng11Zzzz1Rjng29Hang3Zzzz78Java1Zzzz1Zyyy10Java",
  "4Zzzz2Java31Mymr1Zzzz55Cham9Zzzz14Cham2Zzzz10Cham2Zzzz4Cham32Mymr67Tavt24Zzzz5Tavt23Mtei",
  "10Zzzz6Ethi2Zzzz6Ethi2Zzzz6Ethi9Zzzz7Ethi1Zzzz7Ethi1Zzzz43Latn1Zyyy9Latn1Grek4Latn2Zyyy4Zzzz",
  "80Cher46Mtei2Zzzz10Mtei6Zzzz11172Hang12Zzzz23Hang4Zzzz49Hang8452Zzzz366Hani2Zzzz106Hani",
  "38Zzzz7Latn12Zzzz5Armn5Zzzz26Hebr1Zzzz5Hebr1Zzzz1Hebr1Zzzz2Hebr1Zzzz2Hebr1Zzzz10Hebr494Arab",
  "2Zyyy144Arab32Zzzz16Arab16Zinh10Zyyy6Zzzz14Zinh2Cyrl35Zyyy1Zzzz19Zyyy1Zzzz4Zyyy4Zzzz5Arab",
  "1Zzzz135Arab2Zzzz1Zyyy1Zzzz32Zyyy26Latn6Zyyy26Latn11Zyyy10Kana1Zyyy45Kana2Zyyy31Hang3Zzzz",
  "6Hang2Zzzz6Hang2Zzzz6Hang2Zzzz3Hang3Zzzz7Zyyy1Zzzz7Zyyy10Zzzz5Zyyy2Zzzz12Linb1Zzzz26Linb",
  "1Zzzz19Linb1Zzzz2Linb1Zzzz15Linb2Zzzz14Linb34Zzzz123Linb5Zzzz3Zyyy4Zzzz45Zyyy3Zzzz9Zyyy",
  "79Grek1Zzzz13Zyyy3Zzzz1Grek47Zzzz45Zyyy1Zinh130Zzzz29Lyci3Zzzz49Cari15Zzzz1Zinh27Zyyy4Zzzz",
  "36Ital9Zzzz3Ital27Goth5Zzzz43Perm5Zzzz30Ugar1Zzzz1Ugar36Xpeo4Zzzz14Xpeo42Zzzz80Dsrt48Shaw",
  "30Osma2Zzzz10Osma6Zzzz36Osge4Zzzz36Osge4Zzzz40Elba8Zzzz52Aghb11Zzzz1Aghb11Vith1Zzzz15Vith",
  "1Zzzz7Vith1Zzzz2Vith1Zzzz11Vith1Zzzz15Vith1Zzzz7Vith1Zzzz2Vith67Zzzz311Lina9Zzzz22Lina10Zzzz",
  "8Lina24Zzzz6Latn1Zzzz42Latn1Zzzz9Latn69Zzzz6Cprt2Zzzz1Cprt1Zzzz44Cprt1Zzzz2Cprt3Zzzz1Cprt",
  "2Zzzz1Cprt22Armi1Zzzz9Armi32Palm31Nbat8Zzzz9Nbat48Zzzz19Hatr1Zzzz2Hatr5Zzzz5Hatr28Phnx3Zzzz",
  "1Phnx26Lydi5Zzzz1Lydi64Zzzz32Mero24Merc4Zzzz20Merc2Zzzz46Merc4Khar1Zzzz2Khar5Zzzz8Khar1Zzzz",
  "3Khar1Zzzz29Khar2Zzzz3Khar4Zzzz10Khar7Zzzz9Khar7Zzzz32Sarb32Narb32Zzzz39Mani4Zzzz12Mani9Zzzz",
  "54Avst3Zzzz7Avst22Prti2Zzzz8Prti19Phli5Zzzz8Phli18Phlp7Zzzz4Phlp12Zzzz7Phlp80Zzzz73Orkh",
  "55Zzzz51Hung13Zzzz51Hung7Zzzz6Hung40Rohg8Zzzz10Rohg294Zzzz31Arab1Zzzz42Yezi1Zzzz3Yezi2Zzzz",
  "2Yezi16Zzzz6Arab8Zzzz9Arab33Zzzz6Arab40Sogo8Zzzz42Sogd22Zzzz26Ougr38Zzzz28Chrs20Zzzz23Elym",
  "9Zzzz78Brah4Zzzz36Brah9Zzzz1Brah67Kthi10Zzzz1Kthi2Zzzz25Sora7Zzzz10Sora6Zzzz53Cakm1Zzzz",
  "18Cakm8Zzzz39Mahj9Zzzz96Shrd1Zzzz20Sinh11Zzzz18Khoj1Zzzz47Khoj62Zzzz7Mult1Zzzz1Mult1Zzzz",
  "4Mult1Zzzz15Mult1Zzzz11Mult6Zzzz59Sind5Zzzz10Sind6Zzzz4Gran1Zzzz8Gran2Zzzz2Gran2Zzzz22Gran",
  "1Zzzz7Gran1Zzzz2Gran1Zzzz5Gran1Zzzz1Zinh9Gran2Zzzz2Gran2Zzzz3Gran2Zzzz1Gran6Zzzz1Gran5Zzzz",
  "7Gran2Zzzz7Gran3Zzzz5Gran139Zzzz92Newa1Zzzz5Newa30Zzzz72Tirh8Zzzz10Tirh166Zzzz54Sidd2Zzzz",
  "38Sidd34Zzzz69Modi11Zzzz10Modi6Zzzz13Mong19Zzzz58Takr6Zzzz10Takr6Zzzz20Mymr28Zzzz27Ahom2Zzzz",
  "15Ahom4Zzzz23Ahom185Zzzz60Dogr100Zzzz83Wara12Zzzz1Wara7Diak2Zzzz1Diak2Zzzz8Diak1Zzzz2Diak",
  "1Zzzz30Diak1Zzzz2Diak2Zzzz12Diak9Zzzz10Diak70Zzzz8Nand2Zzzz46Nand2Zzzz11Nand27Zzzz72Zanb",
  "8Zzzz83Soyo13Zzzz16Cans57Pauc7Zzzz10Deva86Zzzz8Shrd152Zzzz9Bhks1Zzzz45Bhks1Zzzz14Bhks10Zzzz",
  "29Bhks3Zzzz32Marc2Zzzz22Marc1Zzzz14Marc73Zzzz7Gonm1Zzzz2Gonm1Zzzz44Gonm3Zzzz1Gonm1Zzzz2Gonm",
  "1Zzzz9Gonm8Zzzz10Gonm6Zzzz6Gong1Zzzz2Gong1Zzzz37Gong1Zzzz2Gong1Zzzz6Gong7Zzzz10Gong310Zzzz",
  "25Maka7Zzzz17Kawi1Zzzz41Kawi3Zzzz29Kawi85Zzzz1Lisu15Zzzz50Taml13Zzzz1Taml922Xsux102Zzzz",
  "111Xsux1Zzzz5Xsux11Zzzz196Xsux2636Zzzz99Cpmn13Zzzz1110Egyp10Zzzz3995Egyp5Zzzz583Hluw8633Zzzz",
  "569Bamu7Zzzz31Mroo1Zzzz10Mroo4Zzzz2Mroo79Tnsa1Zzzz10Tnsa6Zzzz30Bass2Zzzz6Bass10Zzzz70Hmng",
  "10Zzzz10Hmng1Zzzz7Hmng1Zzzz21Hmng5Zzzz19Hmng688Zzzz91Medf101Zzzz75Plrd4Zzzz57Plrd7Zzzz17Plrd",
  "64Zzzz1Tang1Nshu2Hani1Kits11Zzzz7Hani9Zzzz6912Tang470Kits41Zzzz1Kits31Tang97Zzzz115Tang",
  "8701Zzzz4Kana1Zzzz7Kana1Zzzz2Kana1Zzzz1Kana287Hira3Kana15Zzzz1Hira29Zzzz3Hira2Zzzz1Kana",
  "14Zzzz4Kana8Zzzz396Nshu2308Zzzz107Dupl5Zzzz13Dupl3Zzzz9Dupl7Zzzz10Dupl2Zzzz4Dupl4Zyyy",
  "3932Zzzz253Zyyy3Zzzz436Zyyy6Zzzz23Zyyy15Zzzz17Zyyy15Zzzz46Zinh2Zzzz23Zinh9Zzzz116Zyyy60Zzzz",
  "246Zyyy10Zzzz39Zyyy2Zzzz62Zyyy3Zinh17Zyyy8Zinh2Zyyy7Zinh30Zyyy4Zinh61Zyyy21Zzzz70Grek122Zzzz",
  "20Zyyy12Zzzz20Zyyy12Zzzz87Zyyy9Zzzz25Zyyy135Zzzz85Zyyy1Zzzz71Zyyy1Zzzz2Zyyy2Zzzz1Zyyy2Zzzz",
  "2Zyyy2Zzzz4Zyyy1Zzzz12Zyyy1Zzzz1Zyyy1Zzzz7Zyyy1Zzzz65Zyyy1Zzzz4Zyyy2Zzzz8Zyyy1Zzzz7Zyyy1Zzzz",
  "28Zyyy1Zzzz4Zyyy1Zzzz5Zyyy1Zzzz1Zyyy3Zzzz7Zyyy1Zzzz340Zyyy2Zzzz292Zyyy2Zzzz50Zyyy652Sgnw",
  "15Zzzz5Sgnw1Zzzz15Sgnw1104Zzzz31Latn6Zzzz6Latn213Zzzz7Glag1Zzzz17Glag2Zzzz7Glag1Zzzz2Glag",
  "1Zzzz5Glag5Zzzz62Cyrl33Zzzz1Cyrl112Zzzz45Hmnp3Zzzz14Hmnp2Zzzz10Hmnp4Zzzz2Hmnp320Zzzz31Toto",
  "17Zzzz58Wcho5Zzzz1Wcho464Zzzz42Nagm742Zzzz7Ethi1Zzzz4Ethi1Zzzz2Ethi1Zzzz15Ethi1Zzzz197Mend",
  "2Zzzz16Mend41Zzzz76Adlm4Zzzz10Adlm4Zzzz2Adlm785Zzzz68Zyyy76Zzzz61Zyyy194Zzzz4Arab1Zzzz27Arab",
  "1Zzzz2Arab1Zzzz1Arab2Zzzz1Arab1Zzzz10Arab1Zzzz4Arab1Zzzz1Arab1Zzzz1Arab6Zzzz1Arab4Zzzz1Arab",
  "1Zzzz1Arab1Zzzz1Arab1Zzzz3Arab1Zzzz2Arab1Zzzz1Arab2Zzzz1Arab1Zzzz1Arab1Zzzz1Arab1Zzzz1Arab",
  "1Zzzz1Arab1Zzzz2Arab1Zzzz1Arab2Zzzz4Arab1Zzzz7Arab1Zzzz4Arab1Zzzz4Arab1Zzzz1Arab1Zzzz10Arab",
  "1Zzzz17Arab5Zzzz3Arab1Zzzz5Arab1Zzzz17Arab52Zzzz2Arab270Zzzz44Zyyy4Zzzz100Zyyy12Zzzz15Zyyy",
  "2Zzzz15Zyyy1Zzzz15Zyyy1Zzzz37Zyyy10Zzzz174Zyyy56Zzzz26Zyyy1Hira2Zyyy13Zzzz44Zyyy4Zzzz9Zyyy",
  "7Zzzz2Zyyy14Zzzz6Zyyy154Zzzz985Zyyy3Zzzz17Zyyy3Zzzz13Zyyy3Zzzz218Zyyy6Zzzz12Zyyy4Zzzz1Zyyy",
  "15Zzzz12Zyyy4Zzzz56Zyyy8Zzzz10Zyyy6Zzzz40Zyyy8Zzzz30Zyyy2Zzzz12Zyyy4Zzzz2Zyyy14Zzzz9Zyyy",
  "39Zzzz344Zyyy8Zzzz14Zyyy2Zzzz13Zyyy3Zzzz11Zyyy3Zzzz57Zyyy1Zzzz1Zyyy4Zzzz16Zyyy2Zzzz12Zyyy",
  "4Zzzz10Zyyy7Zzzz147Zyyy1Zzzz103Zyyy1029Zzzz42720Hani32Zzzz4382Hani2Zzzz5774Hani2Zzzz7473Hani",
  "15Zzzz622Hani2466Zzzz542Hani1506Zzzz4939Hani5Zzzz8490Hani707463Zzzz1Zyyy30Zzzz96Zyyy128Zzzz",
  "240Zinh196112Zzzz"]

/-- The script of a character, by its four letters. -/
def script (c : Char) : String :=
  scriptRuns.label c

/-- The long names of the scripts, in lower case and without word breaks. -/
def scriptNames : List (String × List String) := [
  ("Adlm", ["adlam"]),
  ("Aghb", ["caucasianalbanian"]),
  ("Ahom", ["ahom"]),
  ("Arab", ["arabic"]),
  ("Armi", ["imperialaramaic"]),
  ("Armn", ["armenian"]),
  ("Avst", ["avestan"]),
  ("Bali", ["balinese"]),
  ("Bamu", ["bamum"]),
  ("Bass", ["bassavah"]),
  ("Batk", ["batak"]),
  ("Beng", ["bengali"]),
  ("Bhks", ["bhaiksuki"]),
  ("Bopo", ["bopomofo"]),
  ("Brah", ["brahmi"]),
  ("Brai", ["braille"]),
  ("Bugi", ["buginese"]),
  ("Buhd", ["buhid"]),
  ("Cakm", ["chakma"]),
  ("Cans", ["canadianaboriginal"]),
  ("Cari", ["carian"]),
  ("Cham", ["cham"]),
  ("Cher", ["cherokee"]),
  ("Chrs", ["chorasmian"]),
  ("Copt", ["coptic", "qaac"]),
  ("Cpmn", ["cyprominoan"]),
  ("Cprt", ["cypriot"]),
  ("Cyrl", ["cyrillic"]),
  ("Deva", ["devanagari"]),
  ("Diak", ["divesakuru"]),
  ("Dogr", ["dogra"]),
  ("Dsrt", ["deseret"]),
  ("Dupl", ["duployan"]),
  ("Egyp", ["egyptianhieroglyphs"]),
  ("Elba", ["elbasan"]),
  ("Elym", ["elymaic"]),
  ("Ethi", ["ethiopic"]),
  ("Geor", ["georgian"]),
  ("Glag", ["glagolitic"]),
  ("Gong", ["gunjalagondi"]),
  ("Gonm", ["masaramgondi"]),
  ("Goth", ["gothic"]),
  ("Gran", ["grantha"]),
  ("Grek", ["greek"]),
  ("Gujr", ["gujarati"]),
  ("Guru", ["gurmukhi"]),
  ("Hang", ["hangul"]),
  ("Hani", ["han"]),
  ("Hano", ["hanunoo"]),
  ("Hatr", ["hatran"]),
  ("Hebr", ["hebrew"]),
  ("Hira", ["hiragana"]),
  ("Hluw", ["anatolianhieroglyphs"]),
  ("Hmng", ["pahawhhmong"]),
  ("Hmnp", ["nyiakengpuachuehmong"]),
  ("Hung", ["oldhungarian"]),
  ("Ital", ["olditalic"]),
  ("Java", ["javanese"]),
  ("Kali", ["kayahli"]),
  ("Kana", ["katakana"]),
  ("Kawi", ["kawi"]),
  ("Khar", ["kharoshthi"]),
  ("Khmr", ["khmer"]),
  ("Khoj", ["khojki"]),
  ("Kits", ["khitansmallscript"]),
  ("Knda", ["kannada"]),
  ("Kthi", ["kaithi"]),
  ("Lana", ["taitham"]),
  ("Laoo", ["lao"]),
  ("Latn", ["latin"]),
  ("Lepc", ["lepcha"]),
  ("Limb", ["limbu"]),
  ("Lina", ["lineara"]),
  ("Linb", ["linearb"]),
  ("Lisu", ["lisu"]),
  ("Lyci", ["lycian"]),
  ("Lydi", ["lydian"]),
  ("Mahj", ["mahajani"]),
  ("Maka", ["makasar"]),
  ("Mand", ["mandaic"]),
  ("Mani", ["manichaean"]),
  ("Marc", ["marchen"]),
  ("Medf", ["medefaidrin"]),
  ("Mend", ["mendekikakui"]),
  ("Merc", ["meroiticcursive"]),
  ("Mero", ["meroitichieroglyphs"]),
  ("Mlym", ["malayalam"]),
  ("Modi", ["modi"]),
  ("Mong", ["mongolian"]),
  ("Mroo", ["mro"]),
  ("Mtei", ["meeteimayek"]),
  ("Mult", ["multani"]),
  ("Mymr", ["myanmar"]),
  ("Nagm", ["nagmundari"]),
  ("Nand", ["nandinagari"]),
  ("Narb", ["oldnortharabian"]),
  ("Nbat", ["nabataean"]),
  ("Newa", ["newa"]),
  ("Nkoo", ["nko"]),
  ("Nshu", ["nushu"]),
  ("Ogam", ["ogham"]),
  ("Olck", ["olchiki"]),
  ("Orkh", ["oldturkic"]),
  ("Orya", ["oriya"]),
  ("Osge", ["osage"]),
  ("Osma", ["osmanya"]),
  ("Ougr", ["olduyghur"]),
  ("Palm", ["palmyrene"]),
  ("Pauc", ["paucinhau"]),
  ("Perm", ["oldpermic"]),
  ("Phag", ["phagspa"]),
  ("Phli", ["inscriptionalpahlavi"]),
  ("Phlp", ["psalterpahlavi"]),
  ("Phnx", ["phoenician"]),
  ("Plrd", ["miao"]),
  ("Prti", ["inscriptionalparthian"]),
  ("Rjng", ["rejang"]),
  ("Rohg", ["hanifirohingya"]),
  ("Runr", ["runic"]),
  ("Samr", ["samaritan"]),
  ("Sarb", ["oldsoutharabian"]),
  ("Saur", ["saurashtra"]),
  ("Sgnw", ["signwriting"]),
  ("Shaw", ["shavian"]),
  ("Shrd", ["sharada"]),
  ("Sidd", ["siddham"]),
  ("Sind", ["khudawadi"]),
  ("Sinh", ["sinhala"]),
  ("Sogd", ["sogdian"]),
  ("Sogo", ["oldsogdian"]),
  ("Sora", ["sorasompeng"]),
  ("Soyo", ["soyombo"]),
  ("Sund", ["sundanese"]),
  ("Sylo", ["sylotinagri"]),
  ("Syrc", ["syriac"]),
  ("Tagb", ["tagbanwa"]),
  ("Takr", ["takri"]),
  ("Tale", ["taile"]),
  ("Talu", ["newtailue"]),
  ("Taml", ["tamil"]),
  ("Tang", ["tangut"]),
  ("Tavt", ["taiviet"]),
  ("Telu", ["telugu"]),
  ("Tfng", ["tifinagh"]),
  ("Tglg", ["tagalog"]),
  ("Thaa", ["thaana"]),
  ("Thai", ["thai"]),
  ("Tibt", ["tibetan"]),
  ("Tirh", ["tirhuta"]),
  ("Tnsa", ["tangsa"]),
  ("Toto", ["toto"]),
  ("Ugar", ["ugaritic"]),
  ("Vaii", ["vai"]),
  ("Vith", ["vithkuqi"]),
  ("Wara", ["warangciti"]),
  ("Wcho", ["wancho"]),
  ("Xpeo", ["oldpersian"]),
  ("Xsux", ["cuneiform"]),
  ("Yezi", ["yezidi"]),
  ("Yiii", ["yi"]),
  ("Zanb", ["zanabazarsquare"]),
  ("Zinh", ["inherited", "qaai"]),
  ("Zyyy", ["common"]),
  ("Zzzz", ["unknown"])]

/-- The four letters of the script that a name in lower case and without word breaks asks for. -/
def scriptCode? (name : String) : Option String :=
  (scriptNames.find? fun (short, longs) =>
    short.map Char.toLower = name || longs.contains name).map Prod.fst

end ConfigVetting.Unicode
