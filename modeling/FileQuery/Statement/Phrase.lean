import FileQuery.Similarity
import FileQuery.Text.Blank

/-! The command phrases of the language, for hints and for completion. -/
set_option autoImplicit false
namespace FileQuery

def commandPhrases : List String :=
  ["LOAD", "CREATE FILE", "CREATE FOLDER", "READ FILE", "WRITE FILE",
   "UPDATE FILE", "EDIT FILE", "DELETE FILE", "DELETE FILES",
   "DELETE FOLDER", "DELETE FOLDERS", "USE", "DROP",
   "LIST FILES", "LIST FOLDERS", "LIST *",
   "MOVE FILE", "MOVE FILES", "MOVE FOLDER", "MOVE FOLDERS",
   "COPY FILE", "COPY FILES", "COPY FOLDER", "COPY FOLDERS",
   "RENAME FILE", "RENAME FOLDER", "COUNT FILES", "COUNT FOLDERS", "COUNT ALL",
   "SELECT FILES", "SELECT FOLDERS", "MERGE", "CHMOD"]

/-- The phrase a line may have meant, by its first two words or by the first alone; none when it
begins with a phrase already. -/
def suggestPhrase (best? : Matcher) (line : List Char) : Option String :=
  match Text.words line with
  | [] => none
  | first :: rest =>
    let two := match rest with
      | [] => first
      | second :: _ => first ++ ' ' :: second
    let phrase := String.ofList (Text.upper two)
    if commandPhrases.contains phrase
        || commandPhrases.contains (String.ofList (Text.upper first)) then none
    else (closest? best? phrase commandPhrases).or
      (closest? best? (String.ofList first) commandPhrases)

end FileQuery
