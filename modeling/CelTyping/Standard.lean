import CelTyping.Declaration
import CelTyping.Expr.Basic

/-! The standard functions: operators, conversions, text, time and optional
values, each with its overloads in the order they are tried. -/
namespace CelTyping.Standard

def t : Ty := .param "T"
def k : Ty := .param "K"
def v : Ty := .param "V"
def listOfT : Ty := .list t
def mapOfKV : Ty := .map k v
def optionalT : Ty := .optional t
def optionalV : Ty := .optional v

def function (id : String) (params : List Ty) (result : Ty) (typeParams : List String) :
    Overload :=
  { id, params, result, typeParams }

def method (id : String) (params : List Ty) (result : Ty) (typeParams : List String) : Overload :=
  { id, params, result, isMember := true, typeParams }

def int64 : String × Ty := ("int64", .int)
def uint64 : String × Ty := ("uint64", .uint)
def double : String × Ty := ("double", .double)
def string : String × Ty := ("string", .string)
def bytes : String × Ty := ("bytes", .bytes)
def bool : String × Ty := ("bool", .bool)
def timestamp : String × Ty := ("timestamp", .timestamp)
def duration : String × Ty := ("duration", .duration)

def numeric : List (String × Ty) := [int64, uint64, double]

def onPair (verb : String) (type : String × Ty) : Overload :=
  function (verb ++ "_" ++ type.1) [type.2, type.2] type.2 []

def arithmetic : List Function :=
  [{ name := Operator.add
     overloads :=
       [int64, uint64, double, string, bytes].map (onPair "add") ++
       [function "add_list" [listOfT, listOfT] listOfT ["T"],
        function "add_timestamp_duration" [.timestamp, .duration] .timestamp [],
        function "add_duration_timestamp" [.duration, .timestamp] .timestamp [],
        function "add_duration_duration" [.duration, .duration] .duration []] },
   { name := Operator.subtract
     overloads :=
       numeric.map (onPair "subtract") ++
       [function "subtract_timestamp_timestamp" [.timestamp, .timestamp] .duration [],
        function "subtract_timestamp_duration" [.timestamp, .duration] .timestamp [],
        function "subtract_duration_duration" [.duration, .duration] .duration []] },
   { name := Operator.multiply, overloads := numeric.map (onPair "multiply") },
   { name := Operator.divide, overloads := numeric.map (onPair "divide") },
   { name := Operator.modulo, overloads := [int64, uint64].map (onPair "modulo") },
   { name := Operator.negate
     overloads :=
       [function "negate_int64" [.int] .int [], function "negate_double" [.double] .double []] }]

def sameType (verb : String) (type : String × Ty) : Overload :=
  function (verb ++ "_" ++ type.1) [type.2, type.2] .bool []

def numericPairs : List ((String × Ty) × (String × Ty)) :=
  numeric.flatMap fun a => (numeric.filter (·.1 != a.1)).map (a, ·)

def crossTypeId (verb : String) (pair : (String × Ty) × (String × Ty)) : String :=
  verb ++ "_" ++ pair.1.1 ++ "_" ++ pair.2.1

def crossType (verb : String) (pair : (String × Ty) × (String × Ty)) : Overload :=
  function (crossTypeId verb pair) [pair.1.2, pair.2.2] .bool []

def ordering (name verb : String) : Function :=
  { name
    overloads :=
      [bool, int64, uint64, double, string, bytes, timestamp, duration].map (sameType verb) ++
      numericPairs.map (crossType verb) }

def comparisons : List Function :=
  [{ name := Operator.equals, overloads := [function "equals" [t, t] .bool ["T"]] },
   { name := Operator.notEquals, overloads := [function "not_equals" [t, t] .bool ["T"]] },
   ordering Operator.less "less",
   ordering Operator.lessEquals "less_equals",
   ordering Operator.greater "greater",
   ordering Operator.greaterEquals "greater_equals"]

def logic : List Function :=
  [{ name := Operator.logicalAnd, overloads := [function "logical_and" [.bool, .bool] .bool []] },
   { name := Operator.logicalOr, overloads := [function "logical_or" [.bool, .bool] .bool []] },
   { name := Operator.logicalNot, overloads := [function "logical_not" [.bool] .bool []] },
   { name := Operator.notStrictlyFalse
     overloads := [function "not_strictly_false" [.bool] .bool []] },
   { name := Operator.conditional
     overloads := [function "conditional" [.bool, t, t] t ["T"]] }]

def collections : List Function :=
  [{ name := Operator.index
     overloads :=
       [function "index_list" [listOfT, .int] t ["T"],
        function "index_map" [mapOfKV, k] v ["K", "V"],
        function "optional_list_index_int" [.optional listOfT, .int] optionalT ["T"],
        function "optional_map_index_value" [.optional mapOfKV, k] optionalV ["K", "V"]] },
   { name := Operator.contained
     overloads :=
       [function "in_list" [t, listOfT] .bool ["T"],
        function "in_map" [k, mapOfKV] .bool ["K", "V"]] },
   { name := "size"
     overloads :=
       [function "size_string" [.string] .int [],
        function "size_bytes" [.bytes] .int [],
        function "size_list" [listOfT] .int ["T"],
        function "size_map" [mapOfKV] .int ["K", "V"],
        method "string_size" [.string] .int [],
        method "bytes_size" [.bytes] .int [],
        method "list_size" [listOfT] .int ["T"],
        method "map_size" [mapOfKV] .int ["K", "V"]] }]

def conversion (name : String) (target : String × Ty) (sources : List (String × Ty)) : Function :=
  { name
    overloads := sources.map fun source =>
      function (source.1 ++ "_to_" ++ target.1) [source.2] target.2 [] }

def conversions : List Function :=
  [conversion "int" int64 [int64, uint64, double, string, timestamp],
   conversion "uint" uint64 [uint64, int64, double, string],
   conversion "double" double [double, int64, uint64, string],
   conversion "string" string [string, int64, uint64, double, bytes, bool, timestamp, duration],
   conversion "bytes" bytes [bytes, string],
   conversion "bool" bool [bool, string],
   conversion "timestamp" timestamp [timestamp, string, int64],
   conversion "duration" duration [duration, string],
   { name := "dyn", overloads := [function "to_dyn" [t] .dyn ["T"]] },
   { name := "type", overloads := [function "type" [t] (.type t) ["T"]] }]

def strings : List Function :=
  [{ name := "contains", overloads := [method "contains_string" [.string, .string] .bool []] },
   { name := "startsWith", overloads := [method "starts_with_string" [.string, .string] .bool []] },
   { name := "endsWith", overloads := [method "ends_with_string" [.string, .string] .bool []] },
   { name := "matches"
     overloads :=
       [function "matches" [.string, .string] .bool [],
        method "matches_string" [.string, .string] .bool []] }]

def calendarPart (name part : String) : Function :=
  { name
    overloads :=
      [method ("timestamp_to_" ++ part) [.timestamp] .int [],
       method ("timestamp_to_" ++ part ++ "_with_tz") [.timestamp, .string] .int []] }

def clockPart (name part : String) : Function :=
  let calendar := calendarPart name part
  { calendar with
    overloads := calendar.overloads ++ [method ("duration_to_" ++ part) [.duration] .int []] }

def timeParts : List Function :=
  [calendarPart "getFullYear" "year",
   calendarPart "getMonth" "month",
   calendarPart "getDate" "day_of_month_1_based",
   calendarPart "getDayOfMonth" "day_of_month",
   calendarPart "getDayOfWeek" "day_of_week",
   calendarPart "getDayOfYear" "day_of_year",
   clockPart "getHours" "hours",
   clockPart "getMinutes" "minutes",
   clockPart "getSeconds" "seconds",
   clockPart "getMilliseconds" "milliseconds"]

def optionals : List Function :=
  [{ name := "optional.of", overloads := [function "optional_of" [t] optionalT ["T"]] },
   { name := "optional.ofNonZeroValue"
     overloads := [function "optional_ofNonZeroValue" [t] optionalT ["T"]] },
   { name := "optional.none", overloads := [function "optional_none" [] optionalT ["T"]] },
   { name := "value", overloads := [method "optional_value" [optionalT] t ["T"]] },
   { name := "hasValue", overloads := [method "optional_hasValue" [optionalT] .bool ["T"]] },
   { name := "or"
     overloads := [method "optional_or_optional" [optionalT, optionalT] optionalT ["T"]] },
   { name := "orValue", overloads := [method "optional_orValue_value" [optionalT, t] t ["T"]] },
   { name := Operator.optionalIndex
     overloads :=
       [function "list_optindex_optional_int" [listOfT, .int] optionalT ["T"],
        function "map_optindex_optional_value" [mapOfKV, k] optionalV ["K", "V"]] }]

def functions : List Function :=
  arithmetic ++ comparisons ++ logic ++ collections ++ conversions ++ strings ++ timeParts ++
    optionals

def function? (name : String) : Option Function := functions.find? (·.name == name)

/-- The ids of the comparisons of different numeric types, which are off unless
asked for. -/
def crossTypeOverloads : List String :=
  let pairs :=
    [(double, int64), (double, uint64), (int64, double), (int64, uint64), (uint64, double),
     (uint64, int64)]
  ["less", "less_equals", "greater", "greater_equals"].flatMap fun verb =>
    pairs.map (crossTypeId verb)

end CelTyping.Standard
