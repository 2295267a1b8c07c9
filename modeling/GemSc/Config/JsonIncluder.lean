import GemSc.Config.Json

/-! `JsonIncluder`. `files` gives what opening and parsing a file yields: nothing when it
cannot be opened, `some none` when `json::parse` throws. -/

namespace GemSc

abbrev Files := String → Option (Option Json)

namespace JsonIncluder

/-- `base_path.substr(0, base_path.find_last_of("/\\") + 1)` -/
def dirOf (basePath : String) : String :=
  String.ofList (basePath.toList.rdropWhile fun c => !(c == '/' || c == '\\'))

/-- `node[key] = value` for a key that is not there, in the order of the map. -/
def insertMember (key : String) (value : Json) : List (String × Json) → List (String × Json)
  | [] => [(key, value)]
  | m :: members => if key < m.1 then (key, value) :: m :: members
      else m :: insertMember key value members

/-- The merge loop: members of the included document that the node does not have. -/
def merge (included : Json) (members : List (String × Json)) : List (String × Json) :=
  included.items.foldl
    (fun ms kv => if (ms.lookup kv.1).isSome then ms else insertMember kv.1 kv.2 ms) members

mutual

def loadAndInclude (files : Files) : ℕ → String → Except Fault Json
  | 0, _ => .error .outOfFuel
  | fuel + 1, filename =>
    match files filename with
    | none => .error (.cannotOpen filename)
    | some none => .error .parseError
    | some (some root) => processIncludes files fuel root filename

def processIncludes (files : Files) : ℕ → Json → String → Except Fault Json
  | 0, _, _ => .error .outOfFuel
  | fuel + 1, .object members, basePath => do
    let members ←
      match members.lookup "include" with
      | none => pure members
      | some path => do
        let includeFile ← path.getString
        let included ← loadAndInclude files fuel (dirOf basePath ++ includeFile)
        pure ((merge included members).filter fun m => m.1 != "include")
    let members ← members.mapM fun m => do
      let v ← processIncludes files fuel m.2 basePath
      pure (m.1, v)
    pure (.object members)
  | fuel + 1, .array xs, basePath => do
    let xs ← xs.mapM fun x => processIncludes files fuel x basePath
    pure (.array xs)
  | _ + 1, node, _ => pure node

end

end JsonIncluder
end GemSc
