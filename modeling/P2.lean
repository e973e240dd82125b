import P2.Value.RoundTrip
import P2.Net.Sources
import P2.Net.Retention
import P2.Net.Confirm
import P2.Net.Window
import P2.Net.Transport
import P2.Net.FdbufIO
import P2.Elements.Mux
import P2.Elements.RoundRobin
import P2.Elements.Duplicate
import P2.Elements.DDemux
import P2.Elements.Aggwrap2
import P2.Core.Loop
import P2.Planner.LocalizeTermination
import P2.Table.Lifetime
import P2.Table.Space
import P2.Table.RangeLookup
import P2.Table.EmptyKey
import P2.Table.MkSet
import P2.Planner.Assign
import P2.Secure.Verify
import P2.Pel.Division
import P2.Pel.MaxMin
import P2.Pel.Replace
import P2.Pel.Intersect
import P2.Elements.Lookup2
import P2.Planner.Views
import P2.Net.RateCCT
import P2.Net.RateCCR
import P2.Core.ElementSpec
import P2.Core.DataflowEdit
import P2.Core.Scheduler
import P2.Secure.Serialize
import P2.Elements.PullPush
import P2.Net.RoundTripTimer
