import ResourceApi.Text.Pattern

/-! # What plain scalars stand for

A scalar without quotes stands for a text unless it has the form of something
else. Which forms are tried depends on its first character; the first form that
fits decides. -/

namespace ResourceApi.Yaml

/-- What a plain scalar stands for. -/
inductive Kind where
  | bool
  | float
  | int
  | merge
  | null
  | timestamp
  /-- The default value sign `=`. -/
  | value
  | text
  deriving DecidableEq

open Text Pattern

namespace Forms

def digit : Pattern := one [('0', '9')]

def sign : Pattern := optional (oneOf "-+")

/-- Digits and underscores. -/
def digits : Pattern := many (one [('0', '9'), ('_', '_')])

/-- A digit, then digits and underscores. -/
def number : Pattern := seq digit digits

/-- As `number`, but not from zero. -/
def positive : Pattern := seq (one [('1', '9')]) digits

/-- Sexagesimal places. -/
def sixties : Pattern :=
  atLeastOne (inTurn [char ':', optional (one [('0', '5')]), digit])

def exponent : Pattern :=
  optional (inTurn [oneOf "eE", oneOf "-+", atLeastOne digit])

def words (ws : List String) : Pattern := anyOf (ws.map text)

def bool : Pattern := words ["yes", "Yes", "YES", "no", "No", "NO", "true", "True", "TRUE",
  "false", "False", "FALSE", "on", "On", "ON", "off", "Off", "OFF"]

def float : Pattern := anyOf [
  inTurn [sign, number, char '.', digits, exponent],
  inTurn [char '.', number, exponent],
  inTurn [sign, number, sixties, char '.', digits],
  inTurn [sign, char '.', words ["inf", "Inf", "INF"]],
  inTurn [char '.', words ["nan", "NaN", "NAN"]]]

def int : Pattern := anyOf [
  inTurn [sign, text "0b", atLeastOne (oneOf "01_")],
  inTurn [sign, char '0', atLeastOne (one [('0', '7'), ('_', '_')])],
  inTurn [sign, anyOf [char '0', positive]],
  inTurn [sign, text "0x", atLeastOne (one [('0', '9'), ('a', 'f'), ('A', 'F'), ('_', '_')])],
  inTurn [sign, positive, sixties]]

def merge : Pattern := text "<<"

def null : Pattern := anyOf [nothing, words ["~", "null", "Null", "NULL"]]

def oneOrTwo : Pattern := seq digit (optional digit)

def blanks : Pattern := oneOf " \t"

/-- A date alone. -/
def date : Pattern :=
  inTurn [digit, digit, digit, digit, char '-', digit, digit, char '-', digit, digit]

/-- A time of day behind a date, and a zone if there is one. -/
def timeOfDay : Pattern := inTurn [
  anyOf [oneOf "Tt", atLeastOne blanks], oneOrTwo, char ':', digit, digit, char ':', digit,
  digit, optional (seq (char '.') (many digit)),
  optional (seq (many blanks) (anyOf [char 'Z',
    inTurn [oneOf "-+", oneOrTwo, optional (inTurn [char ':', digit, digit])]]))]

/-- A date whose month and day may have one digit. -/
def looseDate : Pattern :=
  inTurn [digit, digit, digit, digit, char '-', oneOrTwo, char '-', oneOrTwo]

/-- A date with a time of day. -/
def moment : Pattern := seq looseDate timeOfDay

/-- A date, with a time of day if there is one. -/
def anyMoment : Pattern := seq looseDate (optional timeOfDay)

def timestamp : Pattern := anyOf [date, moment]

def value : Pattern := text "="

end Forms

/-- The forms in the order in which they are tried, each with the first characters it is tried
for; the empty scalar has the form of null. -/
def forms : List (Kind × List Char × Pattern) := [
  (.bool, "yYnNtTfFoO".toList, Forms.bool), (.float, "-+0123456789.".toList, Forms.float),
  (.int, "-+0123456789".toList, Forms.int), (.merge, ['<'], Forms.merge),
  (.null, ['~', 'n', 'N'], Forms.null), (.timestamp, "0123456789".toList, Forms.timestamp),
  (.value, ['='], Forms.value)]

/-- What a plain scalar of these characters stands for. -/
def resolve : List Char → Kind
  | [] => .null
  | c :: rest =>
    match forms.find? fun f => f.2.1.contains c && f.2.2.accepts (c :: rest) with
    | some f => f.1
    | none => .text

end ResourceApi.Yaml
