import XdpDetector.Lib.Bytes
import XdpDetector.Lib.Maps
import XdpDetector.Lib.Totals
import XdpDetector.Lib.Run
import XdpDetector.Lib.Series
import XdpDetector.Lib.Round
import XdpDetector.Lib.Descent
import XdpDetector.Lib.Cursor
import XdpDetector.Lib.Admission
import XdpDetector.Lib.Rmw
import XdpDetector.Lib.Text
import XdpDetector.Common
import XdpDetector.Fixed.Mul
import XdpDetector.Fixed.Div
import XdpDetector.Fixed.Log2
import XdpDetector.Kern.Parse
import XdpDetector.Kern.Accept
import XdpDetector.Kern.RoundTrip
import XdpDetector.Kern.Predict
import XdpDetector.Kern.Paths
import XdpDetector.Kern.Detector
import XdpDetector.Kern.Checked
import XdpDetector.System
import XdpDetector.Flow.Summary
import XdpDetector.Flow.Table
import XdpDetector.Flow.Rows
import XdpDetector.Flow.Counters
import XdpDetector.Flow.Duration
import XdpDetector.Flow.Features
import XdpDetector.Flow.FirstCome
import XdpDetector.Flow.Reload
import XdpDetector.Account.Agree
import XdpDetector.Account.ProcTime
import XdpDetector.Dump.Csv
import XdpDetector.Loader.Libbpf
import XdpDetector.Loader.Pin
import XdpDetector.Loader.Params
import XdpDetector.Loader.Loads
import XdpDetector.Loader.Main
import XdpDetector.Model.Threshold
import XdpDetector.Model.Convert
import XdpDetector.Model.Walk
import XdpDetector.Model.Layout
import XdpDetector.Helpers.Parse
import XdpDetector.Helpers.Tags
import XdpDetector.Helpers.Vlan
import XdpDetector.Model.Labels
import XdpDetector.Model.Train
import XdpDetector.Dump.Text
import XdpDetector.Eval.Metrics
import XdpDetector.Concurrent.Step
import XdpDetector.Concurrent.Totals
import XdpDetector.Concurrent.Accounting
import XdpDetector.Concurrent.Swap
