import Lrcp.Api.Agreement
import Lrcp.Pipeline.EndToEnd

namespace Lrcp.Pipeline

open Lrcp.Framework Lrcp.Wal Lrcp.Gateway
open Lrcp.Api (DataStore Answers Engine ProjectRow)

variable {libs : Otlp.Libs} {settings : Store.Thread → Store.Settings} {app M : Nat} {Stop : Store.World → Prop}
  {config : ServerConfig} {protobuf : Protobuf} {w : Store.World} {D E F : Deployment} {t : Store.Thread}

end Lrcp.Pipeline
