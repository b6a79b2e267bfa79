/-!
# Writing comma-separated values

A field is quoted where it holds a comma, a quote or a line break, and a quote inside is written
twice. A record of one empty field is written as two quotes, since an empty line would be none.
-/

namespace Backtest.Csv

def needsQuotes (c : Char) : Bool := c = ',' || c = '"' || c = '\r' || c = '\n'

/-- Writes every quote twice. -/
def doubleQuotes : List Char → List Char
  | [] => []
  | c :: cs => if c = '"' then '"' :: '"' :: doubleQuotes cs else c :: doubleQuotes cs

def quotedField (text : String) : String :=
  String.ofList ('"' :: doubleQuotes text.toList ++ ['"'])

def field (text : String) : String :=
  if text.toList.any needsQuotes then quotedField text else text

/-- A line of fields. -/
def record (fields : List String) : String :=
  if fields = [""] then quotedField "" ++ "\n" else ",".intercalate (fields.map field) ++ "\n"

/-- The lines of a table. -/
def table (rows : List (List String)) : String :=
  String.join (rows.map record)

end Backtest.Csv
