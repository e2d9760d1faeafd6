import SqlFragment.Calendar.Reader
import SqlFragment.Calendar.Text
import SqlFragment.Document.Reader

namespace SqlFragment.Value

open Document

inductive Kind where
  | null | boolean | integer | float | text | date | timestamp
  deriving DecidableEq

namespace Kind

def all : List Kind := [null, boolean, integer, float, text, date, timestamp]

def name : Kind → String
  | null => "Null"
  | boolean => "Boolean"
  | integer => "Integer"
  | float => "Float"
  | text => "Text"
  | date => "Date"
  | timestamp => "Timestamp"

end Kind

def tagged (kind : Kind) (content : Document) : Document := object [(kind.name, content)]

def encode : Value → Document
  | null => string Kind.null.name
  | boolean b => tagged .boolean (bool b)
  | integer i => tagged .integer (Document.integer i.toInt)
  -- a double that is not finite has no number in JSON
  | float x => tagged .float (if x.isFinite then Document.float x else Document.null)
  | text s => tagged .text (string s)
  | date d => tagged .date (string d.text)
  | timestamp t => tagged .timestamp (string (t.text 'T'))

def decodeContent : Kind → Option Document → Except DecodeError Value
  | .null, content => do noContent content; return null
  | .boolean, content => do return boolean (← readBool (← contentOf content))
  | .integer, content => do return integer (← readInt64 (← contentOf content))
  | .float, content => do return float (← readFloat (← contentOf content))
  | .text, content => do return text (← readString (← contentOf content))
  | .date, content => do return date (← readForm Date.read? (← contentOf content))
  | .timestamp, content => do return timestamp (← readForm Timestamp.read? (← contentOf content))

def decode : Reader Value := fun d => do
  let (name, content) ← readTagged d
  decodeContent (← variantOf Kind.all Kind.name name) content

end SqlFragment.Value
