-- The patterns of the text forms, as they are written in a JSON Schema.

namespace JsonModel.Pattern

/-! ## Pieces -/

/-- So many times what stands before. -/
def repeats (times : String) : String := "\x7b" ++ times ++ "\x7d"

/-- Some number of hexadecimal digits. -/
def hex (count : String) : String := "[0-9a-fA-F]" ++ repeats count

/-- The numbers up to 255 in decimal, as alternatives. -/
def byteChoices : String := "25[0-5]|2[0-4][0-9]|1[0-9][0-9]|[1-9][0-9]|[0-9]"

/-- A group of an IPv6 address. -/
def group : String := hex "1,4"

/-- Groups with a colon behind each. -/
def leading (count : String) : String := "(" ++ group ++ ":)" ++ repeats count

/-- Groups with a colon before each. -/
def trailing (count : String) : String := "(:" ++ group ++ ")" ++ repeats count

/-- The IPv6 addresses, as alternatives: in full, and with a gap after some number of groups. -/
def ipv6Choices : String :=
  "|".intercalate
    [leading "7" ++ group, leading "1,7" ++ ":", leading "1,6" ++ ":" ++ group,
      leading "1,5" ++ trailing "1,2", leading "1,4" ++ trailing "1,3",
      leading "1,3" ++ trailing "1,4", leading "1,2" ++ trailing "1,5",
      group ++ ":(" ++ trailing "1,6" ++ ")", ":(" ++ trailing "1,7" ++ "|:)"]

/-- A day of the calendar: the last of February in a leap year, or a day of every year. -/
def day : String :=
  "(?:(?:\\d\\d[2468][048]|\\d\\d[13579][26]|\\d\\d0[48]|[02468][048]00|[13579][26]00)-02-29"
    ++ "|\\d" ++ repeats "4"
    ++ "-(?:(?:0[13578]|1[02])-(?:0[1-9]|[12]\\d|3[01])|(?:0[469]|11)-(?:0[1-9]|[12]\\d|30)"
    ++ "|(?:02)-(?:0[1-9]|1\\d|2[0-8])))"

/-- An hour and a minute. -/
def hourMinute : String := "(?:[01]\\d|2[0-3]):[0-5]\\d"

/-- A fraction of a second, which may be missing. -/
def fraction : String := "(?:\\.\\d+)?"

/-- A time of day, with or without seconds. -/
def clock : String := hourMinute ++ "(?::[0-5]\\d" ++ fraction ++ ")?"

/-! ## Forms -/

/-- An IPv4 address. -/
def ipv4 : String :=
  "^(?:(?:" ++ byteChoices ++ ")\\.)" ++ repeats "3" ++ "(?:" ++ byteChoices ++ ")$"

/-- An IPv4 network. -/
def cidrv4 : String :=
  "^((" ++ byteChoices ++ ")\\.)" ++ repeats "3" ++ "(" ++ byteChoices
    ++ ")\\/([0-9]|[1-2][0-9]|3[0-2])$"

/-- An IPv6 address. -/
def ipv6 : String := "^(" ++ ipv6Choices ++ ")$"

/-- An IPv6 network. -/
def cidrv6 : String := "^(" ++ ipv6Choices ++ ")\\/(12[0-8]|1[01][0-9]|[1-9]?[0-9])$"

/-- An identifier, or one of the two whose digits are all alike. -/
def uuid : String :=
  "^(" ++ hex "8" ++ "-" ++ hex "4" ++ "-[1-8]" ++ hex "3" ++ "-[89abAB]" ++ hex "3" ++ "-"
    ++ hex "12"
    ++ "|00000000-0000-0000-0000-000000000000|ffffffff-ffff-ffff-ffff-ffffffffffff)$"

/-- A mail address. -/
def email : String :=
  "^(?:[A-Za-z0-9_'+\\-]+\\.)*[A-Za-z0-9_'+\\-]*[A-Za-z0-9_+-]@"
    ++ "(?:[A-Za-z0-9][A-Za-z0-9\\-]*\\.)+[A-Za-z]" ++ repeats "2," ++ "$"

/-- A date. -/
def date : String := "^" ++ day ++ "$"

/-- A time. -/
def time : String := "^" ++ clock ++ "$"

/-- A date and a time: with seconds and an offset, or a local time. -/
def dateTime : String :=
  "^" ++ day ++ "T(?:" ++ hourMinute ++ ":[0-5]\\d" ++ fraction ++ "(?:Z|([+-]" ++ hourMinute
    ++ "))|" ++ clock ++ ")$"

/-- A duration: weeks, or a list of other units with at least one of them. -/
def duration : String :=
  "^P(?:(\\d+W)|(?!.*W)(?=\\d|T\\d)(\\d+Y)?(\\d+M)?(\\d+D)?"
    ++ "(T(?=\\d)(\\d+H)?(\\d+M)?(\\d+([.,]\\d+)?S)?)?)$"

/-- Bytes in base 64. -/
def base64 : String :=
  "^$|^(?:[0-9a-zA-Z+/]" ++ repeats "4" ++ ")*(?:(?:[0-9a-zA-Z+/]" ++ repeats "2"
    ++ "==)|(?:[0-9a-zA-Z+/]" ++ repeats "3" ++ "=))?$"

/-- The address of a Postgres database. -/
def postgresDsn : String := "^postgres(?:ql)?(?:\\+[a-z0-9]+)?:\\/\\/\\S+$"

/-- The address of a MongoDB database. -/
def mongoDsn : String := "^mongodb(?:\\+srv)?:\\/\\/\\S+$"

end JsonModel.Pattern
