import SheetFormula.Text.Uppercase

/-!
# Known functions

A name in front of a parenthesis makes a call only if it is the name of a known function, in
capital or small letters. The catalogue lists the names in capitals, by field of use.

## Main definitions

* `FunctionName.known` — the catalogue
* `FunctionName.canonical?` — a name in capitals, if the catalogue has it
-/

namespace SheetFormula.FunctionName

/-- Arithmetic and trigonometry. -/
def mathematicalNames : List String := [
  "ABS", "ACOS", "ACOSH", "AGGREGATE", "ASIN", "ASINH", "ATAN", "ATAN2", "ATANH", "CEILING",
  "CEILING.MATH", "COMBIN", "COS", "COSH", "DEGREES", "EVEN", "EXP", "FACT", "FLOOR",
  "FLOOR.MATH", "GCD", "INT", "LCM", "LN", "LOG", "LOG10", "MOD", "MROUND", "ODD", "PI", "POWER",
  "PRODUCT", "QUOTIENT", "RADIANS", "RAND", "RANDARRAY", "RANDBETWEEN", "ROUND", "ROUNDDOWN",
  "ROUNDUP", "SEQUENCE", "SIGN", "SIN", "SINH", "SQRT", "SUBTOTAL", "SUM", "SUMIF", "SUMIFS",
  "SUMPRODUCT", "SUMSQ", "TAN", "TANH", "TRUNC"]

/-- Statistics. -/
def statisticalNames : List String := [
  "AVERAGE", "AVERAGEA", "AVERAGEIF", "AVERAGEIFS", "CORREL", "COUNT", "COUNTA", "COUNTBLANK",
  "COUNTIF", "COUNTIFS", "FORECAST", "FORECAST.LINEAR", "FREQUENCY", "GEOMEAN", "LARGE", "MAX",
  "MAXA", "MAXIFS", "MEDIAN", "MIN", "MINA", "MINIFS", "MODE", "MODE.SNGL", "NORM.DIST",
  "NORM.INV", "NORM.S.DIST", "PERCENTILE", "PERCENTILE.INC", "PERCENTILE.EXC", "QUARTILE",
  "QUARTILE.INC", "RANK", "RANK.EQ", "SLOPE", "SMALL", "STDEV", "STDEV.P", "STDEV.S", "T.TEST",
  "TREND", "VAR", "VAR.P", "VAR.S"]

/-- Conditions and truth values. -/
def logicalNames : List String := [
  "AND", "FALSE", "IF", "IFERROR", "IFNA", "IFS", "LAMBDA", "LET", "NOT", "OR", "SWITCH", "TRUE",
  "XOR"]

/-- Texts. -/
def textNames : List String := [
  "CHAR", "CLEAN", "CODE", "CONCAT", "CONCATENATE", "DOLLAR", "EXACT", "FIND", "FIXED", "LEFT",
  "LEN", "LOWER", "MID", "NUMBERVALUE", "PROPER", "REPLACE", "REPT", "RIGHT", "SEARCH",
  "SUBSTITUTE", "T", "TEXT", "TEXTAFTER", "TEXTBEFORE", "TEXTJOIN", "TEXTSPLIT", "TRIM",
  "UNICHAR", "UNICODE", "UPPER", "VALUE"]

/-- Tables and references. -/
def lookupNames : List String := [
  "ADDRESS", "AREAS", "CHOOSE", "CHOOSECOLS", "CHOOSEROWS", "COLUMN", "COLUMNS", "DROP",
  "FILTER", "FORMULATEXT", "GETPIVOTDATA", "HLOOKUP", "HSTACK", "HYPERLINK", "INDEX", "INDIRECT",
  "LOOKUP", "MATCH", "OFFSET", "ROW", "ROWS", "SORT", "SORTBY", "TAKE", "TOCOL", "TOROW",
  "TRANSPOSE", "UNIQUE", "VLOOKUP", "VSTACK", "WRAPCOLS", "WRAPROWS", "XLOOKUP", "XMATCH"]

/-- Dates and times. -/
def calendarNames : List String := [
  "DATE", "DATEDIF", "DATEVALUE", "DAY", "DAYS", "EDATE", "EOMONTH", "HOUR", "ISOWEEKNUM",
  "MINUTE", "MONTH", "NETWORKDAYS", "NETWORKDAYS.INTL", "NOW", "SECOND", "TIME", "TIMEVALUE",
  "TODAY", "WEEKDAY", "WEEKNUM", "WORKDAY", "WORKDAY.INTL", "YEAR", "YEARFRAC"]

/-- Questions about cells and values. -/
def informationNames : List String := [
  "CELL", "ERROR.TYPE", "INFO", "ISBLANK", "ISERR", "ISERROR", "ISEVEN", "ISFORMULA",
  "ISLOGICAL", "ISNA", "ISNONTEXT", "ISNUMBER", "ISODD", "ISREF", "ISTEXT", "N", "NA", "SHEET",
  "SHEETS", "TYPE"]

/-- Interest, payments and depreciation. -/
def financialNames : List String := [
  "CUMIPMT", "CUMPRINC", "DB", "DDB", "FV", "IPMT", "IRR", "MIRR", "NPER", "NPV", "PMT", "PPMT",
  "PV", "RATE", "SLN", "SYD", "XIRR", "XNPV"]

/-- Ranges with a header row. -/
def databaseNames : List String := [
  "DAVERAGE", "DCOUNT", "DCOUNTA", "DGET", "DMAX", "DMIN", "DSUM"]

/-- The names of all known functions. -/
def known : List Text :=
  (mathematicalNames ++ statisticalNames ++ logicalNames ++ textNames ++ lookupNames ++
    calendarNames ++ informationNames ++ financialNames ++ databaseNames).map String.toList

/-- The name in capitals, if that is a known function. -/
def canonical? (name : Text) : Option Text :=
  if known.contains (Text.uppercase name) then some (Text.uppercase name) else none

/-- Whether the name, in capital or small letters, is that of a known function. -/
def isKnown (name : Text) : Bool :=
  known.contains (Text.uppercase name)

end SheetFormula.FunctionName
