import OpenLava.Mbd.ListEnds
import OpenLava.Mbd.RsvAccounts
import OpenLava.Mbd.Recount
import OpenLava.Mbd.Modify
import OpenLava.Lib.Wire
import OpenLava.Lim.Cluster
import OpenLava.Mbd.DepValue
import OpenLava.Res.Stdin
import OpenLava.Res.Stdout
import OpenLava.Res.EndOfFile
import OpenLava.Pim.CpuTime
import OpenLava.Lib.WconfSelect
import OpenLava.Log.Compaction
import OpenLava.Mbd.JobIds
import OpenLava.Mbd.PendOrder
import OpenLava.Mbd.RunHosts
import OpenLava.Mbd.MoveOrder
import OpenLava.Mbd.DepEval
import OpenLava.Mbd.ReadyToDisp
import OpenLava.Mbd.HostReach
import OpenLava.Mbd.Ageing
import OpenLava.Mbd.RoundRobin
import OpenLava.Mbd.QueueSwitch
import OpenLava.Mbd.DispatchLoop
import OpenLava.Mbd.RunTime
import OpenLava.Mbd.HostSlots
import OpenLava.Mbd.Groups
import OpenLava.Mbd.JobArray
import OpenLava.Cmd.SpecJobIds
import OpenLava.Mbd.JgrpReset
import OpenLava.Lib.DoGroups
import OpenLava.Lib.BitSetCopy
import OpenLava.Log.MsgAck
import OpenLava.Lib.Window
import OpenLava.Cmd.IdxParse
import OpenLava.Sbd.TryStop
import OpenLava.Lib.Xdr
import OpenLava.Lib.ResReq
import OpenLava.Lim.Announce
import OpenLava.Lim.Place
import OpenLava.Mbd.SharedRes
