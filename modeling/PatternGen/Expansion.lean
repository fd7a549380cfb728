import PatternGen.Pattern.Token
import PatternGen.Settings

/-!
# Expansion of classes

The set of characters that a class is drawn from. The alphabet of the settings bounds every class,
also a negated one and one inside another; without regard to case, a class holds both cases of each
of its letters.
-/

namespace PatternGen

/-- The other case of an ASCII letter; every other character itself (`to_other_case`). -/
def otherCase (c : Char) : Char :=
  if c.isLower then c.toUpper else if c.isUpper then c.toLower else c

/-- The scalar values: all code points of characters. -/
def CodeSet.scalars : CodeSet := (span 0 0x10FFFF).subtract (span 0xD800 0xDFFF)

/-- The other cases of the ASCII letters of a set (`other_case_range`). -/
def CodeSet.otherCases (set : CodeSet) : CodeSet :=
  let lower := set.intersect (span 'a'.val 'z'.val)
  let upper := set.intersect (span 'A'.val 'Z'.val)
  (empty.addSpans (lower.spans.map fun s => (s.lo - 32, s.hi - 32))).addSpans
    (upper.spans.map fun s => (s.lo + 32, s.hi + 32))

namespace Settings

/-- The members of the class whose items hold the set `held`: `expand` from behind its loop on. -/
def bound (settings : Settings) (negate : Bool) (held : CodeSet) : CodeSet :=
  let held := if settings.flags.caseInsensitive then held.union held.otherCases else held
  let members := if negate then settings.alphabet.subtract held else settings.alphabet.intersect held
  members.intersect .scalars

mutual

/-- The code points that an item holds (`expand_item`). -/
def itemSet (settings : Settings) : ClassItem → CodeSet
  | .char c => .single c.val
  | .range lo hi => .span lo.val hi.val
  | .nested negate items => settings.bound negate (settings.itemsSet items)

/-- The code points that one of the items holds: the loop of `expand`. -/
def itemsSet (settings : Settings) : List ClassItem → CodeSet
  | [] => .empty
  | item :: items => (settings.itemSet item).union (settings.itemsSet items)

end

/-- The code points that a class is drawn from (`expand`). -/
def expand (settings : Settings) (cls : CharClass) : CodeSet :=
  settings.bound cls.negate (settings.itemsSet cls.items)

end Settings

end PatternGen
