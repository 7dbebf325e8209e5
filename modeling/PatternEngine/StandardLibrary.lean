import PatternEngine.Engine.FileSystem

/-!
# The standard library

The sources of the packages that every installation has, and the tree of files of a new
installation.
-/

namespace PatternEngine.StandardLibrary

/-- Integers and decimal numbers. -/
def num : List String :=
  ["-- num.rpl: integers and decimal numbers",
    "package num",
    "",
    "local sign = [+\\-]",
    "digits = [:digit:]+",
    "int = sign? digits",
    "frac = \".\" digits",
    "float = int frac ([eE] int)?",
    "hex = \"0x\" [:xdigit:]+",
    "any = hex / float / int"]

/-- Words and identifiers. -/
def word : List String :=
  ["-- word.rpl: words and identifiers",
    "package word",
    "",
    "any = [:alpha:]+",
    "upper = [:upper:]+",
    "lower = [:lower:]+",
    "id = [[:alpha:]_] [[:alnum:]_]*"]

/-- Pairs of a key and a value. -/
def kv : List String :=
  ["-- kv.rpl: key=value pairs",
    "package kv",
    "import word, num",
    "",
    "alias sep = [:space:]* \"=\" [:space:]*",
    "key = word.id",
    "value = num.any / word.any",
    "pair = key sep value"]

/-- The text of a source, each line with a line feed behind it. -/
def text (lines : List String) : String := String.join (lines.map (· ++ "\n"))

/-- The files below the directory of an installation, by their paths. The file that engines
are booted from is only looked for, so it is empty here. -/
def files : List (String × String) :=
  [("lib/boot.lua", ""), ("rpl/num.rpl", text num), ("rpl/word.rpl", text word),
    ("rpl/kv.rpl", text kv)]

/-- The tree of files with an installation in a directory. -/
def installedIn (home : String) : FileSystem :=
  files.foldl (fun fs (path, content) =>
    fs.writeFile (Bytes.ofString (home ++ "/" ++ path)) (Bytes.ofString content)) {}

end PatternEngine.StandardLibrary
