import Diagnostics.Data.Outline
import Diagnostics.Exchange.Writing
import Diagnostics.Record
import Diagnostics.Session.Literal

/-!
# Operations

What can be asked for in a session, with arguments given as literals. An `Operation` makes, changes
or looks at objects; a `Transfer` exchanges diagnostics with the outside, and is logged. Labels and
diagnostics of one style or level, and labels that belong to no file yet, are made by the general
operations.
-/

namespace Diagnostics

/-- What is done within a session. -/
inductive Operation where
  /-- All levels, or all styles. -/
  | severities
  | styles
  /-- The level, or the style, that a value is. -/
  | severity (value : Literal)
  | style (value : Literal)
  /-- All comparisons of two values. -/
  | compare (a b : Literal)
  | sort (values : Literal) (falling : Bool)
  | greatest (values : Literal)
  | least (values : Literal)
  /-- The different values among several, in order. -/
  | distinct (values : Literal)
  /-- Whether a style counts for more than something else with a rank. -/
  | outranks (a b : Literal)
  /-- The byte range that a value describes, in all its forms. -/
  | toByteRange (value : Literal)
  | sliceBytes (range data : Literal)
  /-- A record out of data. -/
  | ofData (type : RecordType) (data : Literal)
  | label (style fileId range : Literal)
  | diagnostic (severity : Literal)
  | withCode (receiver code : Literal)
  | withMessage (receiver message : Literal)
  | withLabels (receiver labels : Literal)
  | withLabelsEach (receiver labels : Literal)
  | withNotes (receiver notes : Literal)
  | withNotesEach (receiver notes : Literal)
  | withFile (receiver fileId : Literal)
  /-- A value as it is. -/
  | value (value : Literal)
  /-- Whether two values are one and the same. -/
  | same (a b : Literal)
  | read (object : Literal) (name : String)
  | assign (object : Literal) (name : String) (value : Literal)
  | append (list value : Literal)
  | literal (value : Literal)
  | plain (value : Literal)
  | outline (value : Literal) (settings : Outline.Settings)
  /-- The fields that a record shows, with the defaults that are left out. -/
  | parts (record : Literal)
  | toJson (config : Config) (diagnostic : Literal)

/-- What is exchanged with the outside. -/
inductive Transfer where
  | ofPlain (data : Literal)
  | dump (config : Config) (diagnostic : Literal)
  | load (text : Literal)
  | dumpAll (config : Config) (diagnostics : Literal)
  | loadAll (text : Literal)

/-- A request to a session. -/
inductive Request where
  | operation (o : Operation)
  | transfer (t : Transfer)

namespace Operation

/-- A primary label. -/
def primary (fileId range : Literal) : Operation := label (.style .primary) fileId range

/-- A secondary label. -/
def secondary (fileId range : Literal) : Operation := label (.style .secondary) fileId range

/-- A label of some style in no file yet. -/
def anonymous (style range : Literal) : Operation := label style .none range

/-- A primary label in no file yet. -/
def primaryAnonymous (range : Literal) : Operation := primary .none range

/-- A secondary label in no file yet. -/
def secondaryAnonymous (range : Literal) : Operation := secondary .none range

/-- A diagnostic of a level. -/
def ofLevel (s : Severity) : Operation := diagnostic (.severity s)

end Operation

end Diagnostics
