import IpcRelay.Common.Config
import IpcRelay.Lib.Binary64
import IpcRelay.Lib.JsonGrammar

/-!
# The JSON serializer (`tools/receiver/lib/json_writer.cpp`)

A writer appends to its text and remembers whether the next item needs a comma.
-/

namespace IpcRelay

open Binary64

/-- `%04x` of a byte. -/
def hex04 (c : UInt8) : Bytes :=
  let digit (d : UInt8) : UInt8 := if d < 10 then 48 + d else 87 + d
  [48, 48, digit (c >>> 4), digit (c &&& 15)]

/-- Three decimal digits. -/
def pad3 (n : Nat) : Bytes := [48 + UInt8.ofNat (n / 100 % 10), 48 + UInt8.ofNat (n / 10 % 10), 48 + UInt8.ofNat (n % 10)]

/-- `printf("%.3f")`. -/
def fixed3 : Double → Bytes
  | .infinite negative => (if negative then str "-" else []) ++ str "inf"
  | .finite negative m e =>
    let k := Double.thousandths m e
    (if negative then str "-" else []) ++ numText (k / 1000 : Nat) ++ str "." ++ pad3 (k % 1000)

structure JsonWriter where
  out : Bytes := []
  needComma : Bool := false
  deriving DecidableEq, Repr

namespace JsonWriter

/-- One character of a string. -/
def escapeChar (c : UInt8) : Bytes :=
  if c = 34 then [92, 34]
  else if c = 92 then [92, 92]
  else if c = 10 then [92, 110]
  else if c = 13 then [92, 114]
  else if c = 9 then [92, 116]
  else if c < 0x20 then [92, 117] ++ hex04 c
  else [c]

/-- `escape`. -/
def escape (s : Bytes) : Bytes := 34 :: s.flatMap escapeChar ++ [34]

/-- `separator`. -/
def separator (j : JsonWriter) : JsonWriter :=
  { out := if j.needComma then j.out ++ [44] else j.out, needComma := true }

/-- Appends an already serialized value. -/
def raw (j : JsonWriter) (json : Bytes) : JsonWriter := { j.separator with out := j.separator.out ++ json }

def beginObject (j : JsonWriter) : JsonWriter := { out := j.separator.out ++ [123], needComma := false }

def endObject (j : JsonWriter) : JsonWriter := { out := j.out ++ [125], needComma := true }

def beginArray (j : JsonWriter) : JsonWriter := { out := j.separator.out ++ [91], needComma := false }

def endArray (j : JsonWriter) : JsonWriter := { out := j.out ++ [93], needComma := true }

def key (j : JsonWriter) (k : Bytes) : JsonWriter := { out := j.separator.out ++ escape k ++ [58], needComma := false }

def string (j : JsonWriter) (v : Bytes) : JsonWriter := j.raw (escape v)

/-- `value` of an integer type. -/
def integer (j : JsonWriter) (v : Int) : JsonWriter := j.raw (numText v)

/-- `value(double)`: the text is cut where the buffer of 64 characters ends. -/
def double (j : JsonWriter) (v : Double) : JsonWriter := j.raw ((fixed3 v).take 63)

def bool (j : JsonWriter) (v : Bool) : JsonWriter := j.raw (if v then str "true" else str "false")

def null (j : JsonWriter) : JsonWriter := j.raw (str "null")

end JsonWriter

end IpcRelay
