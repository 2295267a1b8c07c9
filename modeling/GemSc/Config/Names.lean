import GemSc.Config.Json

/-! How the factory reads the strings of a connection: port specifications, wildcard and
regular-expression patterns, exclusion lists and references to module groups.
`std::regex` is a parameter: the answer of `regex_match`, or nothing when it throws. -/

namespace GemSc

abbrev RegexMatch := String → String → Option Bool

/-- A full match against plain characters, dots and `.*`. -/
def dotStarMatch : List Char → List Char → Bool
  | [], str => str.isEmpty
  | '.' :: '*' :: pattern, str => str.tails.any (dotStarMatch pattern)
  | _ :: _, [] => false
  | p :: pattern, c :: str => (p == '.' || p == c) && dotStarMatch pattern str

/-- `std::regex` on the patterns of this form, with or without the two anchors, and texts of
one line. -/
def dotStarRegex : RegexMatch := fun pattern str =>
  match pattern.toList with
  | '^' :: ps => some (dotStarMatch ps.dropLast str.toList)
  | ps => some (dotStarMatch ps str.toList)

/-- `str.rfind(prefix, 0) == 0` -/
def startsWith (str pre : String) : Bool := pre.toList.isPrefixOf str.toList

/-- `instance_name.port_name`, split at the first dot; no dot leaves the port empty. -/
def parsePortSpec (fullName : String) : String × String :=
  (String.ofList (fullName.toList.takeWhile (· != '.')),
    String.ofList ((fullName.toList.dropWhile (· != '.')).drop 1))

namespace Wildcard

def translate : List Char → List Char
  | [] => []
  | ['*'] => ['.', '*']
  | '*' :: c :: cs => '.' :: '*' :: c :: translate cs
  | '?' :: cs => '.' :: translate cs
  | c :: cs => c :: translate cs

def regexStr (pattern : String) : String := String.ofList ('^' :: translate pattern.toList ++ ['$'])

def isMatch (regexMatch : RegexMatch) (pattern str : String) : Bool :=
  match regexMatch (regexStr pattern) str with
  | some b => b
  | none => pattern == str

end Wildcard

namespace RegexMatcher

def isRegexPattern (pattern : String) : Bool := startsWith pattern "regex:"

def extractRegex (pattern : String) : String :=
  if isRegexPattern pattern then String.ofList (pattern.toList.drop 6) else ""

def isMatch (regexMatch : RegexMatch) (pattern str : String) : Bool :=
  if isRegexPattern pattern then (regexMatch (extractRegex pattern) str).getD false
  else Wildcard.isMatch regexMatch pattern str

end RegexMatcher

def isExcluded (regexMatch : RegexMatch) (name : String) : List Json → Except Fault Bool
  | [] => .ok false
  | excl :: rest => do
    let pattern ← excl.getString
    if Wildcard.isMatch regexMatch pattern name ||
        (RegexMatcher.isRegexPattern pattern && RegexMatcher.isMatch regexMatch pattern name)
    then .ok true else isExcluded regexMatch name rest

def filterExcluded (regexMatch : RegexMatch) (excludeList : Json) :
    List String → Except Fault (List String)
  | [] => .ok []
  | name :: rest => do
    let excluded ← isExcluded regexMatch name excludeList.elements
    let result ← filterExcluded regexMatch excludeList rest
    .ok (if excluded then result else name :: result)

/-- The process-wide group table, as the definitions made so far, the newest first. -/
abbrev Groups := List (String × List String)

namespace ModuleGroup

def define (name : String) (members : List String) (groups : Groups) : Groups :=
  (name, members) :: groups

def getMembers (groups : Groups) (name : String) : List String := (groups.lookup name).getD []

def isGroupReference (str : String) : Bool := startsWith str "group:"

def extractGroupName (str : String) : String :=
  if isGroupReference str then String.ofList (str.toList.drop 6) else ""

def resolve (groups : Groups) (groupRef : String) : List String :=
  if isGroupReference groupRef then getMembers groups (extractGroupName groupRef) else []

end ModuleGroup

theorem filterExcluded_sublist {r : RegexMatch} {excl : Json} {names kept : List String}
    (h : filterExcluded r excl names = .ok kept) : kept.Sublist names := by
  induction names generalizing kept with
  | nil =>
    cases h
    exact .slnil
  | cons name rest ih =>
    unfold filterExcluded at h
    rcases he : isExcluded r name excl.elements with _ | excluded
    · rw [he] at h
      cases h
    rcases hr : filterExcluded r excl rest with _ | result
    · rw [he, hr] at h
      cases h
    rw [he, hr] at h
    cases h
    cases excluded
    · exact (ih hr).cons_cons name
    · exact (ih hr).cons name

theorem parsePortSpec_of_no_dot {name : String} (h : '.' ∉ name.toList) :
    parsePortSpec name = (name, "") := by
  have hall : ∀ c ∈ name.toList, (c != '.') = true := fun c hc => by
    simpa using ne_of_mem_of_not_mem hc h
  have htake := List.takeWhile_eq_self_iff.mpr hall
  have hdrop := List.dropWhile_eq_nil_iff.mpr hall
  simp [parsePortSpec, htake, hdrop]

theorem parsePortSpec_port {name : String} (h : '.' ∉ name.toList) (port : String) :
    parsePortSpec (name ++ "." ++ port) = (name, port) := by
  have hall : ∀ c ∈ name.toList, (c != '.') = true := by
    intro c hc
    simpa using ne_of_mem_of_not_mem hc h
  have htext : (name ++ "." ++ port).toList = name.toList ++ '.' :: port.toList := by simp
  unfold parsePortSpec
  rw [htext, List.takeWhile_append_of_pos hall, List.dropWhile_append_of_pos hall]
  simp

end GemSc
