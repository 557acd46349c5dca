import Shorthand.Table

/-! # Stock

Templates that come with the program, by language and trigger. A language that mixes markup with
a scripting language takes the templates of that language if it has none of its own.
-/
namespace Shorthand

structure Stock where
  tables : Table String (Table String String)

namespace Stock

def empty : Stock := ⟨.empty⟩

def add (st : Stock) (language trigger template : String) : Stock :=
  ⟨st.tables.insert language (((st.tables.get? language).getD .empty).insert trigger template)⟩

def ofList (entries : List (String × String × String)) : Stock :=
  entries.foldl (fun st (language, trigger, template) => st.add language trigger template) empty

/-- The templates of exactly this language, if there are any. -/
def own? (st : Stock) (language : String) : Option (Table String String) :=
  (st.tables.get? language).filter (!·.isEmpty)

/-- The language whose templates serve for another one. -/
def fallback? (language : String) : Option String :=
  if language = "jsx" then some "typescript" else none

def serving? (st : Stock) (language : String) : Option (Table String String) :=
  match st.own? language with
  | some t => some t
  | none => (fallback? language).bind st.own?

def languages (st : Stock) : List String :=
  ((st.tables.entries.filter (!·.2.isEmpty)).map Prod.fst).mergeSort (· ≤ ·)

def sameAs (st other : Stock) : Bool :=
  st.tables.size = other.tables.size && st.tables.entries.all fun (language, t) =>
    (other.tables.get? language).any t.sameAs

namespace Shipped

def componentSkeleton : String :=
  "import React from 'react';\n\nconst NewComponent = (props) => \x7b\n    return (\n" ++
  "        <div>\n            $CURSOR$\n        </div>\n    );\n\x7d;\n\n" ++
  "export default NewComponent;"

def stateHook : String := "const [value, setValue] = React.useState($CURSOR$initialValue);"

def htmlEntries : List (String × String) :=
  [("!", "<!DOCTYPE html>\n<html lang=\"en\">\n<head>\n    <meta charset=\"UTF-8\">\n" ++
    "    <meta name=\"viewport\" content=\"width=device-width, initial-scale=1.0\">\n" ++
    "    <title>Document</title>\n</head>\n<body>\n    $CURSOR$\n</body>\n</html>"),
   ("table", "<table>\n    <thead>\n        <tr>\n            <th>Header 1</th>\n" ++
    "            <th>Header 2</th>\n        </tr>\n    </thead>\n    <tbody>\n" ++
    "        <tr>\n            <td>$CURSOR$Data 1</td>\n            <td>Data 2</td>\n" ++
    "        </tr>\n    </tbody>\n</table>"),
   ("link:css", "<link rel=\"stylesheet\" href=\"style.css\">"),
   ("script:src", "<script src=\"app.js\" defer>$CURSOR$</script>")]

def cssEntries : List (String × String) :=
  [("bg", "background-color: $CURSOR$;"),
   ("btn", ".button \x7b\n    display: inline-block;\n    padding: 10px 20px;\n" ++
    "    font-size: 16px;\n    cursor: pointer;\n    text-align: center;\n" ++
    "    color: #fff;\n    background-color: #4CAF50;\n    border: none;\n" ++
    "    border-radius: 15px;\n\x7d\n" ++
    ".button:hover \x7bbackground-color: #3e8e41\x7d$CURSOR$"),
   ("flex", "display: flex;\nalign-items: center;\njustify-content: center;$CURSOR$")]

def javascriptEntries : List (String × String) :=
  [("log", "console.log($CURSOR$);"),
   ("fun", "function functionName($CURSOR$) \x7b\n    // code block\n\x7d"),
   ("for", "for (let i = 0; i < array.length; i++) \x7b\n    const element = array[i];\n" ++
    "    $CURSOR$\n\x7d"),
   ("fetch", "fetch('https://api.example.com/data')\n    .then(response => response.json())\n" ++
    "    .then(data => \x7b\n        console.log(data);\n        $CURSOR$\n    \x7d)\n" ++
    "    .catch(error => console.error('Error fetching data:', error));")]

def typescriptEntries : List (String × String) :=
  [("interface", "interface NewInterface \x7b\n    property: string;\n    $CURSOR$\n\x7d"),
   ("type", "type NewType = \x7b\n    id: number;\n    name: string;\n    $CURSOR$\n\x7d;"),
   ("comp", componentSkeleton),
   ("useState", stateHook)]

def jsxEntries : List (String × String) :=
  [("comp", componentSkeleton),
   ("useState", stateHook)]

def pythonEntries : List (String × String) :=
  [("def", "def new_function(arg1, arg2):\n    # function body\n    $CURSOR$\n    pass"),
   ("class", "class NewClass:\n    def __init__(self$CURSOR$):\n        pass\n\n" ++
    "    def method(self):\n        pass"),
   ("for", "for item in iterable:\n    # process item\n    $CURSOR$\n    pass")]

end Shipped

open Shipped in
/-- What the playground ships with. -/
def shipped : Stock where
  tables := .ofList
    [("html", .ofList htmlEntries),
     ("css", .ofList cssEntries),
     ("javascript", .ofList javascriptEntries),
     ("typescript", .ofList typescriptEntries),
     ("jsx", .ofList jsxEntries),
     ("python", .ofList pythonEntries)]

end Stock

end Shorthand
