/-!
# Port and stream names

An edge of a config is written `"port:stream"`, or just `"stream"`.  Both
functions of stream_name.h cut at the *first* colon and return the whole
string when there is none.
-/

namespace GraphRuntime.Config

/-- `PortName`: what stands before the first colon. -/
def portName (portStream : String) : String :=
  String.ofList (portStream.toList.takeWhile (· != ':'))

/-- `StreamName`: what stands after the first colon, everything when there is
no colon. -/
def streamName (portStream : String) : String :=
  if portStream.toList.contains ':' then
    String.ofList ((portStream.toList.dropWhile (· != ':')).drop 1)
  else portStream

example : (portName "in:a:b", streamName "in:a:b") = ("in", "a:b") := by
  decide +kernel

end GraphRuntime.Config
