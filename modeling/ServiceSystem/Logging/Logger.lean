import ServiceSystem.Foundations.Text

namespace ServiceSystem.Logging

open Foundations

inductive LogLevel
  | DEBUG
  | INFO
  | WARNING
  | ERROR
  deriving DecidableEq

namespace LogLevel

def toNat : LogLevel → ℕ
  | DEBUG => 0
  | INFO => 1
  | WARNING => 2
  | ERROR => 3

end LogLevel

def levelToString : LogLevel → Str
  | .DEBUG => "DEBUG".toList
  | .INFO => "INFO".toList
  | .WARNING => "WARNING".toList
  | .ERROR => "ERROR".toList

/-- A broken-down local time with its milliseconds, in the years written with four digits. -/
structure Tm where
  year : ℕ
  month : ℕ
  day : ℕ
  hour : ℕ
  minute : ℕ
  second : ℕ
  ms : ℕ
  year_digits : 1000 ≤ year ∧ year ≤ 9999
  month_le : month ≤ 12
  day_le : day ≤ 31
  hour_le : hour ≤ 23
  minute_le : minute ≤ 59
  second_le : second ≤ 60
  ms_le : ms ≤ 999

def getCurrentTimestamp (t : Tm) : Str :=
  Str.ofNat t.year ++ '-' :: Str.zeroPad 2 (Str.ofNat t.month) ++
    '-' :: Str.zeroPad 2 (Str.ofNat t.day) ++ 'T' :: Str.zeroPad 2 (Str.ofNat t.hour) ++
    ':' :: Str.zeroPad 2 (Str.ofNat t.minute) ++ ':' :: Str.zeroPad 2 (Str.ofNat t.second) ++
    '.' :: Str.zeroPad 3 (Str.ofNat t.ms) ++ ['Z']

/-- What a call finds around it: the time, and whether a file can be opened. -/
structure Moment where
  clock : Tm
  opens : Bool

/-- `std::ofstream`, opened for appending. -/
structure OFStream where
  path : Option Str
  failbit : Bool
  deriving DecidableEq

namespace OFStream

def is_open (f : OFStream) : Bool := f.path.isSome

/-- A stream that is open already stays so, and has failed. -/
def openFile (f : OFStream) (filepath : Str) (opens : Bool) : OFStream :=
  match f.path with
  | some p => ⟨some p, true⟩
  | none => if opens then ⟨some filepath, false⟩ else ⟨none, true⟩

end OFStream

structure LokiPush where
  level : Str
  message : Str
  labels : List (Str × Str)
  deriving DecidableEq

structure Sinks where
  cout : List Str
  cerr : List Str
  files : Str → Str
  loki : List LokiPush

def Sinks.append (s : Sinks) (path text : Str) : Sinks :=
  { s with files := Function.update s.files path (s.files path ++ text) }

structure Logger where
  logFile : OFStream
  minLevel : LogLevel
  fileEnabled : Bool
  consoleEnabled : Bool
  lokiFormatEnabled : Bool
  logFilePath : Str
  serviceName : Str
  lokiHost : Str
  lokiPort : ℤ

namespace Logger

def new : Logger where
  logFile := ⟨none, false⟩
  minLevel := .DEBUG
  fileEnabled := false
  consoleEnabled := true
  lokiFormatEnabled := false
  logFilePath := "logs/app.log".toList
  serviceName := "service_system".toList
  lokiHost := "localhost".toList
  lokiPort := 3100

def init (l : Logger) (m : Moment) (filepath : Str) (level : LogLevel) : Logger :=
  let logFile := l.logFile.openFile filepath m.opens
  { l with
    logFilePath := filepath
    minLevel := level
    consoleEnabled := true
    lokiFormatEnabled := false
    logFile := logFile
    fileEnabled := logFile.is_open }

def initWithLoki (l : Logger) (m : Moment) (filepath : Str) (level : LogLevel) (host : Str)
    (port : ℤ) : Logger :=
  { l.init m filepath level with
    lokiHost := host
    lokiPort := port
    lokiFormatEnabled := true }

def setLevel (l : Logger) (level : LogLevel) : Logger := { l with minLevel := level }

def enableConsole (l : Logger) (enabled : Bool) : Logger := { l with consoleEnabled := enabled }

def enableFile (l : Logger) (m : Moment) (enabled : Bool) : Logger :=
  if enabled && !l.logFile.is_open then
    let logFile := l.logFile.openFile l.logFilePath m.opens
    { l with logFile := logFile, fileEnabled := logFile.is_open }
  else { l with fileEnabled := enabled }

def setServiceName (l : Logger) (name : Str) : Logger := { l with serviceName := name }

def entry (m : Moment) (level : LogLevel) (message : Str) : Str :=
  ['['] ++ getCurrentTimestamp m.clock ++ [']', ' ', '['] ++ levelToString level ++ [']', ' '] ++
    message

def write (l : Logger) (m : Moment) (level : LogLevel) (message : Str) (s : Sinks) : Sinks :=
  if level.toNat < l.minLevel.toNat then s
  else
    let entryStr := entry m level message
    let s :=
      if l.consoleEnabled then
        if level = .ERROR then { s with cerr := s.cerr ++ [entryStr] }
        else { s with cout := s.cout ++ [entryStr] }
      else s
    match l.logFile.path with
    | some path =>
      if l.fileEnabled && !l.logFile.failbit then s.append path (entryStr ++ ['\n']) else s
    | none => s

def sendToLoki (l : Logger) (level message : Str) (labels : List (Str × Str)) (s : Sinks) : Sinks :=
  if l.lokiFormatEnabled then { s with loki := s.loki ++ [⟨level, message, labels⟩] } else s

end Logger

def ofBool (b : Bool) : Str := if b then "true".toList else "false".toList

/-- The logging methods of `Logger`. `plain` stands for `debug`, `info`, `warning` and
`error`, with or without a context. -/
inductive LogCall
  | plain (level : LogLevel) (message : Str)
  | inContext (level : LogLevel) (message context : Str)
  | logRequest (ip method path : Str) (status duration_ms : ℤ)
  | logAuth (username : Str) (success : Bool) (ip details : Str)
  | logDatabase (operation : Str) (success : Bool) (details : Str)
  | logDevice (deviceId : ℤ) (operation : Str) (success : Bool)
  | logService (recordId : ℤ) (operation : Str) (success : Bool)
  | logLifecycle (event details : Str)
  deriving DecidableEq

namespace LogCall

def level : LogCall → LogLevel
  | plain level _ | inContext level _ _ => level
  | logRequest .. | logLifecycle .. => .INFO
  | logAuth _ success _ _ | logDevice _ _ success | logService _ _ success =>
    if success then .INFO else .WARNING
  | logDatabase _ success _ => if success then .INFO else .ERROR

def message : LogCall → Str
  | plain _ message => message
  | inContext _ message context => message ++ " [".toList ++ context ++ "]".toList
  | logRequest ip method path status duration_ms =>
    "HTTP Request: ".toList ++ method ++ " ".toList ++ path ++ " | IP: ".toList ++ ip ++
      " | Status: ".toList ++ Str.ofInt status ++ " | Duration: ".toList ++
      Str.ofInt duration_ms ++ "ms".toList
  | logAuth username success ip details =>
    "Auth attempt: user='".toList ++ username ++ "' ".toList ++ "success=".toList ++
      ofBool success ++ " ip=".toList ++ ip ++
      if details = [] then [] else " details=".toList ++ details
  | logDatabase operation success details =>
    "DB operation: ".toList ++ operation ++ " | success=".toList ++ ofBool success ++
      if details = [] then [] else " | details=".toList ++ details
  | logDevice deviceId operation success =>
    "Device operation: ".toList ++ operation ++ " | device_id=".toList ++ Str.ofInt deviceId ++
      " | success=".toList ++ ofBool success
  | logService recordId operation success =>
    "Service operation: ".toList ++ operation ++ " | record_id=".toList ++ Str.ofInt recordId ++
      " | success=".toList ++ ofBool success
  | logLifecycle event details =>
    "Lifecycle event: ".toList ++ event ++
      if details = [] then [] else " | details=".toList ++ details

/-- The level and labels of the push to Loki, which the plain methods do not make. -/
def push : LogCall → Option (Str × List (Str × Str))
  | plain .. | inContext .. => none
  | logRequest _ method path _ _ =>
    some ("info".toList, [("component".toList, "webserver".toList), ("endpoint".toList, path),
      ("method".toList, method)])
  | logAuth username success ip _ =>
    some (if success then "info".toList else "warning".toList,
      [("component".toList, "auth".toList), ("user".toList, username),
        ("success".toList, ofBool success), ("ip".toList, ip)])
  | logDatabase operation success _ =>
    some (if success then "info".toList else "error".toList,
      [("component".toList, "database".toList), ("operation".toList, operation),
        ("success".toList, ofBool success)])
  | logDevice deviceId operation success =>
    some (if success then "info".toList else "warning".toList,
      [("component".toList, "device".toList), ("operation".toList, operation),
        ("device_id".toList, Str.ofInt deviceId)])
  | logService recordId operation success =>
    some (if success then "info".toList else "warning".toList,
      [("component".toList, "service".toList), ("operation".toList, operation),
        ("record_id".toList, Str.ofInt recordId)])
  | logLifecycle event _ =>
    some ("info".toList, [("component".toList, "lifecycle".toList), ("event".toList, event)])

end LogCall

inductive Call
  | init (filepath : Str) (level : LogLevel)
  | initWithLoki (filepath : Str) (level : LogLevel) (host : Str) (port : ℤ)
  | setLevel (level : LogLevel)
  | enableConsole (enabled : Bool)
  | enableFile (enabled : Bool)
  | setServiceName (name : Str)
  | log (call : LogCall)

def perform (m : Moment) : Call → Logger × Sinks → Logger × Sinks
  | .init filepath level, (l, s) => (l.init m filepath level, s)
  | .initWithLoki filepath level host port, (l, s) => (l.initWithLoki m filepath level host port, s)
  | .setLevel level, (l, s) => (l.setLevel level, s)
  | .enableConsole enabled, (l, s) => (l.enableConsole enabled, s)
  | .enableFile enabled, (l, s) => (l.enableFile m enabled, s)
  | .setServiceName name, (l, s) => (l.setServiceName name, s)
  | .log call, (l, s) =>
    let s := l.write m call.level call.message s
    (l, match call.push with
      | some (level, labels) => l.sendToLoki level call.message labels s
      | none => s)

def performAll (calls : List (Moment × Call)) (start : Logger × Sinks) : Logger × Sinks :=
  calls.foldl (fun st mc ↦ perform mc.1 mc.2 st) start

end ServiceSystem.Logging
