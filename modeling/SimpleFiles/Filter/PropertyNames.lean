/-! Names of the character properties that regular expressions know. Names are
compared without spaces, underscores, hyphens and case. -/
namespace SimpleFiles.Pattern

def generalCategories : List String := [
  "any", "assigned", "ascii", "c", "other", "cc", "control", "cntrl", "cf", "format", "cn",
  "unassigned", "co", "privateuse", "l", "letter", "lc", "casedletter", "ll", "lowercaseletter",
  "lm", "modifierletter", "lo", "otherletter", "lt", "titlecaseletter", "lu", "uppercaseletter",
  "m", "mark", "combiningmark", "mc", "spacingmark", "me", "enclosingmark", "mn",
  "nonspacingmark", "n", "number", "nd", "decimalnumber", "digit", "nl", "letternumber", "no",
  "othernumber", "p", "punctuation", "punct", "pc", "connectorpunctuation", "pd",
  "dashpunctuation", "pe", "closepunctuation", "pf", "finalpunctuation", "pi",
  "initialpunctuation", "po", "otherpunctuation", "ps", "openpunctuation", "s", "symbol", "sc",
  "currencysymbol", "sk", "modifiersymbol", "sm", "mathsymbol", "so", "othersymbol", "z",
  "separator", "zl", "lineseparator", "zp", "paragraphseparator", "zs", "spaceseparator"]

def binaryProperties : List String := [
  "asciihexdigit", "ahex", "alphabetic", "alpha", "bidicontrol", "bidic", "bidimirrored", "bidim",
  "caseignorable", "ci", "cased", "changeswhencasefolded", "cwcf", "changeswhencasemapped",
  "cwcm", "changeswhenlowercased", "cwl", "changeswhentitlecased", "cwt", "changeswhenuppercased",
  "cwu", "dash", "defaultignorablecodepoint", "di", "deprecated", "dep", "diacritic", "dia",
  "emoji", "emojicomponent", "ecomp", "emojimodifier", "emod", "emojimodifierbase", "ebase",
  "emojipresentation", "epres", "extendedpictographic", "extpict", "extender", "ext",
  "graphemebase", "grbase", "graphemeextend", "grext", "hexdigit", "hex", "hyphen", "idstart",
  "ids", "idcontinue", "idc", "ideographic", "ideo", "idsbinaryoperator", "idsb",
  "idstrinaryoperator", "idst", "idsunaryoperator", "idsu", "joincontrol", "joinc",
  "logicalorderexception", "loe", "lowercase", "lower", "math", "modifiercombiningmark", "mcm",
  "noncharactercodepoint", "nchar", "otheralphabetic", "oalpha", "otherdefaultignorablecodepoint",
  "odi", "othergraphemeextend", "ogrext", "otheridcontinue", "oidc", "otheridstart", "oids",
  "otherlowercase", "olower", "othermath", "omath", "otheruppercase", "oupper", "patternsyntax",
  "patsyn", "patternwhitespace", "patws", "prependedconcatenationmark", "pcm", "quotationmark",
  "qmark", "radical", "regionalindicator", "ri", "sentenceterminal", "sterm", "softdotted", "sd",
  "terminalpunctuation", "term", "unifiedideograph", "uideo", "uppercase", "upper",
  "variationselector", "vs", "whitespace", "wspace", "space", "xidcontinue", "xidc", "xidstart",
  "xids", "idcompatmathcontinue", "idcompatmathstart", "graphemelink", "grlink"]

def scripts : List String := [
  "adlam", "adlm", "aghb", "caucasianalbanian", "ahom", "anatolianhieroglyphs", "hluw", "arab",
  "arabic", "armenian", "armn", "avestan", "avst", "bali", "balinese", "bamu", "bamum", "bass",
  "bassavah", "batak", "batk", "beng", "bengali", "bhaiksuki", "bhks", "bopo", "bopomofo", "brah",
  "brahmi", "brai", "braille", "bugi", "buginese", "buhd", "buhid", "cakm", "canadianaboriginal",
  "cans", "cari", "carian", "chakma", "cham", "cher", "cherokee", "chorasmian", "chrs", "common",
  "zyyy", "copt", "coptic", "qaac", "cpmn", "cyprominoan", "cprt", "cypriot", "cuneiform", "xsux",
  "cyrillic", "cyrl", "deseret", "dsrt", "deva", "devanagari", "diak", "divesakuru", "dogr",
  "dogra", "dupl", "duployan", "egyp", "egyptianhieroglyphs", "elba", "elbasan", "elym",
  "elymaic", "ethi", "ethiopic", "gara", "garay", "geor", "georgian", "glag", "glagolitic",
  "gong", "gunjalagondi", "gonm", "masaramgondi", "goth", "gothic", "gran", "grantha", "greek",
  "grek", "gujarati", "gujr", "gukh", "gurungkhema", "gurmukhi", "guru", "han", "hani", "hang",
  "hangul", "hanifirohingya", "rohg", "hano", "hanunoo", "hatr", "hatran", "hebr", "hebrew",
  "hira", "hiragana", "hmng", "pahawhhmong", "hmnp", "nyiakengpuachuehmong", "hung",
  "oldhungarian", "imperialaramaic", "armi", "inherited", "zinh", "qaai", "inscriptionalpahlavi",
  "phli", "inscriptionalparthian", "prti", "ital", "olditalic", "java", "javanese", "kaithi",
  "kthi", "kali", "kayahli", "kana", "katakana", "kannada", "knda", "kawi", "khar", "kharoshthi",
  "khitansmallscript", "kits", "khmer", "khmr", "khoj", "khojki", "khudawadi", "sind", "kirat",
  "kiratrai", "krai", "lana", "taitham", "lao", "laoo", "latin", "latn", "lepc", "lepcha", "limb",
  "limbu", "lina", "lineara", "linb", "linearb", "lisu", "lyci", "lycian", "lydi", "lydian",
  "mahajani", "mahj", "maka", "makasar", "malayalam", "mlym", "mand", "mandaic", "mani",
  "manichaean", "marc", "marchen", "medefaidrin", "medf", "meeteimayek", "mtei", "mend",
  "mendekikakui", "merc", "meroiticcursive", "mero", "meroitichieroglyphs", "miao", "plrd",
  "modi", "mong", "mongolian", "mro", "mroo", "mult", "multani", "myanmar", "mymr", "nabataean",
  "nbat", "nagm", "nagmundari", "nand", "nandinagari", "narb", "oldnortharabian", "newa",
  "newtailue", "talu", "nko", "nkoo", "nshu", "nushu", "ogam", "ogham", "olchiki", "olck",
  "oldpermic", "perm", "oldpersian", "xpeo", "oldsogdian", "sogo", "oldsoutharabian", "sarb",
  "oldturkic", "orkh", "olduyghur", "ougr", "olonal", "onao", "oriya", "orya", "osage", "osge",
  "osma", "osmanya", "palm", "palmyrene", "pauc", "paucinhau", "phag", "phagspa", "phlp",
  "psalterpahlavi", "phnx", "phoenician", "rejang", "rjng", "runic", "runr", "samaritan", "samr",
  "saur", "saurashtra", "sgnw", "signwriting", "sharada", "shrd", "shavian", "shaw", "sidd",
  "siddham", "sinh", "sinhala", "sogd", "sogdian", "sora", "sorasompeng", "soyo", "soyombo",
  "sund", "sundanese", "sunu", "sunuwar", "sylo", "sylotinagri", "syrc", "syriac", "tagalog",
  "tglg", "tagb", "tagbanwa", "taile", "tale", "taiviet", "tavt", "takr", "takri", "tamil",
  "taml", "tang", "tangut", "tangsa", "tnsa", "telu", "telugu", "tfng", "tifinagh", "thaa",
  "thaana", "thai", "tibetan", "tibt", "tirh", "tirhuta", "todhri", "todr", "toto",
  "tulutigalari", "tutg", "ugar", "ugaritic", "vai", "vaii", "vith", "vithkuqi", "wancho", "wcho",
  "wara", "warangciti", "yezi", "yezidi", "yi", "yiii", "zanabazarsquare", "zanb"]

/-- General categories and scripts that no character belongs to. -/
def vacantValues : List String :=
  ["cs", "surrogate", "hrkt", "katakanaorhiragana", "unknown", "zzzz"]

/-- Properties that are neither binary nor compared with a value. -/
def otherProperties : List String := [
  "bc", "bidiclass", "blk", "block", "bmg", "bidimirroringglyph", "bpb", "bidipairedbracket",
  "bpt", "bidipairedbrackettype", "ccc", "canonicalcombiningclass", "ce", "compositionexclusion",
  "cf", "casefolding", "compex", "fullcompositionexclusion", "cwkcf", "changeswhennfkccasefolded",
  "dm", "decompositionmapping", "dt", "decompositiontype", "ea", "eastasianwidth", "equideo",
  "equivalentunifiedideograph", "fcnfkc", "fcnfkcclosure", "hst", "hangulsyllabletype", "incb",
  "indicconjunctbreak", "inpc", "indicpositionalcategory", "insc", "indicsyllabiccategory", "isc",
  "isocomment", "jg", "joininggroup", "jsn", "jamoshortname", "jt", "joiningtype", "lb",
  "linebreak", "lc", "lowercasemapping", "na", "name", "na1", "unicode1name", "namealias",
  "nfcqc", "nfcquickcheck", "nfdqc", "nfdquickcheck", "nfkccf", "nfkccasefold", "nfkcqc",
  "nfkcquickcheck", "nfkcscf", "nfkcsimplecasefold", "nfkdqc", "nfkdquickcheck", "nt",
  "numerictype", "nv", "numericvalue", "scf", "sfc", "simplecasefolding", "slc",
  "simplelowercasemapping", "stc", "simpletitlecasemapping", "suc", "simpleuppercasemapping",
  "tc", "titlecasemapping", "uc", "uppercasemapping", "vo", "verticalorientation", "xonfc",
  "expandsonnfc", "xonfd", "expandsonnfd", "xonfkc", "expandsonnfkc", "xonfkd", "expandsonnfkd"]

def ages : List String := [
  "v11", "v20", "v21", "v30", "v31", "v32", "v40", "v41", "v50", "v51", "v52", "v60", "v61",
  "v62", "v63", "v70", "v80", "v90", "v100", "v110", "v120", "v121", "v130", "v140", "v150",
  "v151", "v160", "1.1", "2.0", "2.1", "3.0", "3.1", "3.2", "4.0", "4.1", "5.0", "5.1", "5.2",
  "6.0", "6.1", "6.2", "6.3", "7.0", "8.0", "9.0", "10.0", "11.0", "12.0", "12.1", "13.0", "14.0",
  "15.0", "15.1", "16.0"]

def graphemeBreaks : List String := [
  "cn", "control", "cr", "ex", "extend", "l", "lf", "lv", "lvt", "pp", "prepend",
  "regionalindicator", "ri", "sm", "spacingmark", "t", "v", "zwj"]

def wordBreaks : List String := [
  "aletter", "le", "cr", "doublequote", "dq", "ex", "extendnumlet", "extend", "fo", "format",
  "hebrewletter", "hl", "ka", "katakana", "lf", "mb", "midnumlet", "midletter", "ml", "midnum",
  "mn", "newline", "nl", "nu", "numeric", "regionalindicator", "ri", "singlequote", "sq",
  "wsegspace", "zwj"]

def sentenceBreaks : List String := [
  "at", "aterm", "cl", "close", "cr", "ex", "extend", "fo", "format", "le", "oletter", "lf", "lo",
  "lower", "nu", "numeric", "sc", "scontinue", "se", "sep", "sp", "st", "sterm", "up", "upper"]

def propertyValues? (name : String) : Option (List String) :=
  if name ∈ ["gc", "generalcategory"] then some generalCategories
  else if name ∈ ["sc", "script", "scx", "scriptextensions"] then some scripts
  else if name ∈ ["age"] then some ages
  else if name ∈ ["gcb", "graphemeclusterbreak"] then some graphemeBreaks
  else if name ∈ ["wb", "wordbreak"] then some wordBreaks
  else if name ∈ ["sb", "sentencebreak"] then some sentenceBreaks
  else none

def plainName (name : List Char) : String :=
  let (hasIs, rest) := match name with
    | 'i' :: 's' :: rest | 'I' :: 's' :: rest | 'i' :: 'S' :: rest | 'I' :: 'S' :: rest =>
      (true, rest)
    | _ => (false, name)
  let plain := (rest.filter fun c => c ≠ ' ' && c ≠ '_' && c ≠ '-' && c.toNat < 128).map
    Char.toLower
  if hasIs ∧ plain = ['c'] then "isc" else .ofList plain

end SimpleFiles.Pattern
