import Quaternary.Log.Event

/-!
# Log filters

A filter says of every callsite whether its events are shown. Filters are set by texts, and what a
text means as a filter is not settled here: it is a parameter, of which the tool needs a strict
reading, for the text that the user has set, and a lenient one, for its own text `warn`.
-/

namespace Quaternary

/-- An event is shown if it is at least as urgent as a warning, wherever it comes from. -/
def ShowsWarnings (shows : Callsite → Bool) : Prop :=
  ∀ site, shows site = Level.warn.covers site.channel.level

/-- Reads texts as filters. -/
structure FilterReader where
  /-- The filter that a text describes, if it is a description. -/
  read? : String → Option (Callsite → Bool)
  /-- The filter that a text describes, where parts that are no description are left out. -/
  readLenient : String → Callsite → Bool

namespace FilterReader

/-- The filter for a setting. Where nothing is set, or the setting is no description, it is the one
that the text `warn` describes. -/
def ofSetting (reader : FilterReader) (setting : Option String) : Callsite → Bool :=
  match setting.bind reader.read? with
  | some shows => shows
  | none => reader.readLenient "warn"

/-- The text `warn` describes the filter that it is documented to describe. -/
def ReadsWarn (reader : FilterReader) : Prop := ShowsWarnings (reader.readLenient "warn")

theorem showsWarnings_ofSetting_none {reader : FilterReader} (h : reader.ReadsWarn) :
    ShowsWarnings (reader.ofSetting none) :=
  h

end FilterReader

end Quaternary
