/-! Names of emoji between colons, the common ones. A name may end in `-emoji` or `-text`, which asks
for one of the two looks of the character. -/
set_option autoImplicit false
namespace FileQuery.Table

def emojiNames : List (String × Char) :=
  [("smile", '😄'), ("smiley", '😃'), ("laughing", '😆'), ("joy", '😂'), ("wink", '😉'),
   ("blush", '😊'), ("heart_eyes", '😍'), ("cry", '😢'), ("sob", '😭'), ("angry", '😠'),
   ("rage", '😡'), ("sunglasses", '😎'), ("thumbs_up", '👍'), ("thumbs_down", '👎'),
   ("thumbsup", '👍'), ("thumbsdown", '👎'), ("+1", '👍'), ("-1", '👎'), ("clap", '👏'),
   ("wave", '👋'), ("ok_hand", '👌'), ("pray", '🙏'), ("muscle", '💪'), ("heart", '❤'),
   ("red_heart", '❤'), ("broken_heart", '💔'), ("star", '⭐'), ("sparkles", '✨'), ("fire", '🔥'),
   ("boom", '💥'), ("zap", '⚡'), ("tada", '🎉'), ("party_popper", '🎉'), ("rocket", '🚀'),
   ("warning", '⚠'), ("x", '❌'), ("white_check_mark", '✅'), ("heavy_check_mark", '✔'),
   ("question", '❓'), ("exclamation", '❗'), ("bulb", '💡'), ("bug", '🐛'), ("snake", '🐍'),
   ("poop", '💩'), ("pile_of_poo", '💩'), ("ghost", '👻'), ("skull", '💀'), ("key", '🔑'),
   ("lock", '🔒'), ("bell", '🔔'), ("gift", '🎁'), ("pizza", '🍕'), ("coffee", '☕'), ("beer", '🍺'),
   ("wine_glass", '🍷'), ("hourglass", '⌛'), ("eyes", '👀'), ("vampire", '🧛'), ("raccoon", '🦝'),
   ("100", '💯'), ("1234", '🔢')]

/-- Lower case within ASCII, the only case the names have. -/
def emoji? (name : List Char) : Option Char :=
  let key := String.ofList (name.map Char.toLower)
  (emojiNames.find? (fun e => e.1 == key)).map (·.2)

def cutLook (name : List Char) : List Char × List Char :=
  if "-emoji".toList.isSuffixOf name then (name.take (name.length - 6), ['\uFE0F'])
  else if "-text".toList.isSuffixOf name then (name.take (name.length - 5), ['\uFE0E'])
  else (name, [])

end FileQuery.Table
