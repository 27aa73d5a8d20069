import CliffordT.Text.Letters

/-!
# Locales

A locale is named by a language, perhaps with a country behind an underscore, and a character set behind a point, all of
which may be missing; behind an at sign stands a modifier. Screens are for East Asian languages if their variable says
so, or else if the locale has a character set of such a language, or an international one and such a language.
-/

namespace CliffordT.Locale

/-- The character sets whose characters take several bytes. -/
def multibyte : List String :=
  ["utf-8", "utf8", "jis", "eucjp", "euckr", "euccn", "sjis", "cp932", "cp51932", "cp936", "cp949", "cp950", "big5",
   "gbk", "gb2312"]

/-- The languages of East Asia. -/
def eastAsian : List String := ["ja", "ko", "zh"]

/-- The part of a locale behind its language and country, and behind a point. -/
def behindPoint? (locale : List Char) : Option (List Char) :=
  let language := locale.takeWhile Char.isLower
  if language.length < 2 ∨ 3 < language.length then none
  else
    let rest :=
      match locale.drop language.length with
      | '_' :: a :: b :: rest => if a.isUpper && b.isUpper then rest else '_' :: a :: b :: rest
      | rest => rest
    match rest with
    | '.' :: set =>
      let set := set.takeWhile (· ≠ '\n')
      if set.isEmpty then none else some set
    | _ => none

/-- The character set of a locale with its modifier. Without a language in front, the whole is taken for one. -/
def charset (locale : String) : List Char :=
  (Text.lower (String.ofList ((behindPoint? locale.toList).getD locale.toList))).toList

/-- Whether a locale is for an East Asian language. A modifier can ask for narrow characters. -/
def isEastAsian (locale : String) : Bool :=
  let set := charset locale
  let name := String.ofList (set.takeWhile (· ≠ '@'))
  !"@cjk_narrow".toList.isSuffixOf set && multibyte.contains name &&
    (name.front ≠ 'u' || eastAsian.any fun language => language.toList.isPrefixOf locale.toList)

/-- The first of some variables that is set to something; empty if none is. -/
def firstSet (environment : List (String × String)) (names : List String) : String :=
  ((names.filterMap fun name => environment.lookup name).find? (· ≠ "")).getD ""

/-- Whether a locale is the plain one, with or without a character set. -/
def isPlain (locale : String) : Bool :=
  locale = "POSIX" || locale = "C" || ['C', '.'].isPrefixOf locale.toList || ['C', '-'].isPrefixOf locale.toList

/-- The variable that decides alone. -/
def widthName : String := "RUNEWIDTH_EASTASIAN"

/-- The variables that give the locale, the first in front. -/
def localeNames : List String := ["LC_ALL", "LC_CTYPE", "LANG"]

/-- The variables that say what screen there is. -/
def names : List String := widthName :: localeNames

/-- Whether the screen is for East Asian languages. -/
def hasEastAsianScreen (environment : List (String × String)) : Bool :=
  match firstSet environment [widthName] with
  | "" =>
    let locale := firstSet environment localeNames
    !isPlain locale && isEastAsian locale
  | choice => choice = "1"

end CliffordT.Locale
