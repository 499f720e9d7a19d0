/-!
# The Web Audio API

The declarations of audio contexts, of the nodes of an audio graph, and of the older names
of constructors.
-/

namespace ApiCatalog.Bundled

/-- The text of the declarations. -/
def webAudioText : String :=
  "; Web Audio API
; http://www.w3.org/TR/webaudio/

; Contexts

(class: BaseAudioContext
  :see [\"http://www.w3.org/TR/webaudio/#BaseAudioContext\"]
  :members [(property destination !AudioDestinationNode :readonly)
            (property sampleRate number :readonly)
            (property currentTime number :readonly)
            (property listener !AudioListener :readonly)
            (property state string :readonly)
            (method suspend [] (! (promise void)))
            (method resume [] (! (promise void)))
            (method close [] (! (promise void)))
            (property onstatechange EventTarget)
            (method createBuffer [(numberOfChannels number) (length number) (sampleRate number)]
                                 !AudioBuffer)
            (method decodeAudioData [(audioData (buffer bytes))
                                     (successCallback (function [AudioBuffer]) :optional)
                                     (errorCallback (function [?]) :optional)]
                                    (! (promise AudioBuffer)))
            (method createBufferSource [] !AudioBufferSourceNode)
            (method createAudioWorker [(scriptURL string)] (! (promise AudioWorker)))
            (method createScriptProcessor [(bufferSize number)
                                           (numberOfInputChannels_opt number :optional)
                                           (numberOfOutputChannels_opt number :optional)]
                                          !ScriptProcessorNode)
            (method createAnalyser [] !RealtimeAnalyserNode)
            (method createGain [] !GainNode)
            (method createDelay [(maxDelayTime number :optional)] !DelayNode)
            (method createBiquadFilter [] !BiquadFilterNode)
            (method createIIRFilter [(feedforward number) (feedback number)] !IIRFilterNode)
            (method createWaveShaper [] !WaveShaperNode)
            (method createPanner [] !PannerNode)
            (method createSpatialPanner [] !SpatialPannerNode)
            (method createStereoPanner [] !StereoPannerNode)
            (method createConvolver [] !ConvolverNode)
            (method createChannelSplitter [(numberOfOutputs number :optional)] !AudioChannelSplitter)
            (method createDynamicsCompressor [] !DynamicsCompressorNode)
            (method createOscillator [] !OscillatorNode)
            (method createPeriodicWave [(real (buffer float32)) (imag (buffer float32))] !PeriodicWave)])

(class: AudioContext :extends BaseAudioContext
  :members [(method createMediaElementSource [(mediaElement HTMLMediaElement)]
                                             !MediaElementAudioSourceNode)
            (method createMediaStreamDestination [] !MediaStreamAudioDestinationNode)
            (method createMediaStreamSource [(mediaStream MediaStream)] !MediaStreamAudioSourceNode)
            (method createGainNode [] :deprecated AudioContext/createGain)])

(class: OfflineAudioContext :extends BaseAudioContext
  :params [(numberOfChannels number) (length number) (sampleRate number)]
  :members [(method startRendering [])
            (property oncomplete (function [OfflineAudioCompletionEvent]))
            (method suspend [] (! (promise void)))
            (method resume [] (! (promise void)))])

(class: OfflineAudioCompletionEvent :extends Event
  :members [(property renderedBuffer AudioBuffer)])

; Graph

(class: AudioNode
  :members [(method connect [(destination (union AudioNode AudioParam))
                             (output number :optional)
                             (input number :optional)]
                            (union AudioNode void))
            (method disconnect [(destination (union AudioNode AudioParam number) :optional)
                                (output number :optional)
                                (input number :optional)])
            (property context !AudioContext :readonly)
            (property numberOfInputs number :readonly)
            (property numberOfOutputs number :readonly)
            (property channelCount number)
            (property channelCountMode string)
            (property channelInterpretation string)])

(class: AudioDestinationNode :extends AudioNode
  :members [(property numberOfChannels number
              :deprecated \x7b:replacement AudioDestinationNode/maxChannelCount
                           :note \"To be deprecated.\"\x7d)
            (property maxChannelCount number)])

(class: AudioParam
  :members [(property value number)
            (property defaultValue number :readonly)
            (method setValueAtTime [(value number) (startTime number)] :mutates [value])
            (method linearRampToValueAtTime [(value number) (endTime number)])
            (method exponentialRampToValueAtTime [(value number) (endTime number)])
            (method setTargetAtTime [(target number) (startTime number) (timeConstant number)])
            (method setTargetValueAtTime [(target number) (startTime number) (timeConstant number)]
              :deprecated AudioParam/setTargetAtTime)
            (method setValueCurveAtTime [(values (buffer float32)) (startTime number) (duration number)])
            (method cancelScheduledValues [(startTime number)])])

(class: GainNode :extends AudioNode
  :members [(property gain !AudioParam :readonly)])

(class: DelayNode :extends AudioNode
  :members [(property delayTime !AudioParam :readonly)])

(class: AudioBuffer
  :members [(property sampleRate number :readonly)
            (property length number :readonly)
            (property duration number :readonly)
            (property numberOfChannels number :readonly)
            (method getChannelData [(channel number)] (buffer float32))
            (method copyFromChannel [(destination (buffer float32))
                                     (channelNumber number)
                                     (startInChannel number :optional)])
            (method copyToChannel [(source (buffer float32))
                                   (channelNumber number)
                                   (startInChannel number :optional)])])

(class: AudioBufferSourceNode :extends AudioNode
  :members [(property buffer AudioBuffer)
            (property playbackRate !AudioParam :readonly)
            (property detune !AudioParam :readonly)
            (property loop boolean)
            (property loopStart number)
            (property loopEnd number)
            (method start [(when number :optional)
                           (opt_offset number :optional)
                           (opt_duration number :optional)])
            (method noteGrainOn [(when number :optional)
                                 (opt_offset number :optional)
                                 (opt_duration number :optional)]
              :deprecated AudioBufferSourceNode/start)
            (method stop [(when number)])
            (method noteOff [(when number)] :deprecated AudioBufferSourceNode/stop)
            (property onended EventTarget)])

(class: MediaElementAudioSourceNode :extends AudioNode)

; Workers

(class: AudioWorker
  :members [(method terminate [])
            (method postMessage [(message *) (transfer (array Transferable) :optional)])
            (property parameters (array AudioWorkerParamDescriptor) :readonly)
            (property onmessage EventTarget)
            (property onloaded EventTarget)
            (method createNode [(numberOfInputs number) (numberOfOutputs number)] AudioWorkerNode)
            (method addParameter [(name string) (defaultValue number)] AudioParam)
            (method removeParameter [(name string)])])

(class: AudioWorkerNode :extends AudioNode
  :members [(method postMessage [(message *) (transfer (array Transferable) :optional)])
            (property onmessage EventTarget)])

(class: AudioWorkerParamDescriptor
  :members [(property name string :readonly)
            (property defaultValue number :readonly)])

(class: AudioWorkerGlobalScope
  :members [(property sampleRate number :readonly)
            (method addParameter [(name string) (defaultValue number)] AudioParam)
            (method removeParameter [(name string)])
            (property onaudioprocess EventTarget)
            (property onnodecreate EventTarget)
            (property parameters (array AudioWorkerParamDescriptor) :readonly)])

(class: AudioWorkerNodeProcessor
  :members [(method postMessage [(message *) (transfer (array Transferable) :optional)])
            (property onmessage EventTarget)])

(class: ScriptProcessorNode :extends AudioNode
  :deprecated AudioWorkerNode
  :members [(property onaudioprocess
              (union EventListener (function [!AudioProcessingEvent] (union boolean undefined)))
              :deprecated AudioWorkerNode)
            (property bufferSize number :const :deprecated AudioWorkerNode)])

(class: AudioWorkerNodeCreationEvent :extends Event
  :members [(property node AudioWorkerNodeProcessor :readonly)
            (property inputs (array *) :readonly)
            (property outputs (array *) :readonly)])

(class: AudioProcessEvent :extends Event
  :members [(property playbackTime number :readonly)
            (property node AudioWorkerNodeProcessor :readonly)
            (property inputs (buffer float32) :readonly)
            (property outputs (buffer float32) :readonly)
            (property parameters Object :readonly)])

(class: AudioProcessingEvent :extends Event
  :deprecated AudioProcessEvent
  :members [(property node ScriptProcessorNode :deprecated AudioProcessEvent)
            (property playbackTime number :deprecated AudioProcessEvent)
            (property inputBuffer AudioBuffer :deprecated AudioProcessEvent)
            (property outputBuffer AudioBuffer :deprecated AudioProcessEvent)])

; Spatialization

(class: PannerNode :extends AudioNode
  :members [(property panningModel string)
            (property positionX !AudioParam)
            (property positionY !AudioParam)
            (property positionZ !AudioParam)
            (property orientationX !AudioParam)
            (property orientationY !AudioParam)
            (property orientationZ !AudioParam)
            (property distanceModel string)
            (property refDistance number)
            (property maxDistance number)
            (property rolloffFactor number)
            (property coneInnerAngle number)
            (property coneOuterAngle number)
            (property coneOuterGain number)
            (method setPosition [(x number) (y number) (z number)]
              :mutates [positionX positionY positionZ])
            (method setOrientation [(x number) (y number) (z number)]
              :mutates [orientationX orientationY orientationZ])])

(class: AudioListener
  :deprecated SpatialListener
  :members [(property gain number :deprecated SpatialListener)
            (property dopplerFactor number :deprecated SpatialListener)
            (property speedOfSound number :deprecated SpatialListener)
            (method setPosition [(x number) (y number) (z number)] :deprecated SpatialListener)
            (method setOrientation [(x number) (y number) (z number)
                                    (xUp number) (yUp number) (zUp number)]
              :deprecated SpatialListener)
            (method setVelocity [(x number) (y number) (z number)] :deprecated SpatialListener)])

(class: SpatialPannerNode :extends AudioNode
  :members [(property panningModel string)
            (property positionX !AudioParam :readonly)
            (property positionY !AudioParam :readonly)
            (property positionZ !AudioParam :readonly)
            (property orientationX !AudioParam :readonly)
            (property orientationY !AudioParam :readonly)
            (property orientationZ !AudioParam :readonly)
            (property distanceModel string)
            (property refDistance number)
            (property maxDistance number)
            (property rolloffFactor number)
            (property coneInnerAngle number)
            (property coneOuterAngle number)
            (property coneOuterGain number)])

(class: SpatialListener
  :members [(property positionX !AudioParam :readonly)
            (property positionY !AudioParam :readonly)
            (property positionZ !AudioParam :readonly)
            (property forwardX !AudioParam :readonly)
            (property forwardY !AudioParam :readonly)
            (property forwardZ !AudioParam :readonly)
            (property upX !AudioParam :readonly)
            (property upY !AudioParam :readonly)
            (property upZ !AudioParam :readonly)])

(class: StereoPannerNode :extends AudioNode
  :see [\"http://webaudio.github.io/web-audio-api/#the-stereopannernode-interface\"]
  :members [(property pan !AudioParam :readonly)])

; Processing nodes

(class: ConvolverNode :extends AudioNode
  :members [(property buffer ?AudioBuffer)
            (property normalize boolean)])

(class: AnalyserNode :extends AudioNode
  :members [(method getFloatFrequencyData [(array (buffer float32))])
            (method getByteFrequencyData [(array (buffer uint8))])
            (method getFloatTimeDomainData [(array (buffer float32))])
            (method getByteTimeDomainData [(array (buffer uint8))])
            (property fftSize number)
            (property frequencyBinCount number)
            (property minDecibels number)
            (property maxDecibels number)
            (property smoothingTimeConstant number)])

(class: RealtimeAnalyserNode :extends AnalyserNode
  :deprecated \x7b:replacement AnalyserNode
               :note \"Kept for backwards compatibility.\"\x7d)

(class: ChannelSplitterNode :extends AudioNode)

(class: AudioChannelSplitter :extends ChannelSplitterNode
  :deprecated \x7b:replacement ChannelSplitterNode
               :note \"Kept for backwards compatibility.\"\x7d)

(class: ChannelMergerNode :extends AudioNode)

(class: AudioChannelMerger :extends ChannelMergerNode
  :deprecated \x7b:replacement ChannelMergerNode
               :note \"Kept for backwards compatibility.\"\x7d)

(class: DynamicsCompressorNode :extends AudioNode
  :members [(property threshold !AudioParam :readonly)
            (property knee !AudioParam :readonly)
            (property ratio !AudioParam :readonly)
            (property reduction !number :readonly)
            (property attack !AudioParam :readonly)
            (property release !AudioParam :readonly)])

(class: BiquadFilterNode :extends AudioNode
  :members [(property type string)
            (property frequency !AudioParam)
            (property detune !AudioParam)
            (property Q !AudioParam)
            (property gain !AudioParam)
            (method getFrequencyResponse [(frequencyHz (buffer float32))
                                          (magResponse (buffer float32))
                                          (phaseResponse (buffer float32))])])

(class: IIRFilterNode :extends AudioNode
  :members [(method getFrequencyResponse [(frequencyHz (buffer float32))
                                          (magResponse (buffer float32))
                                          (phaseResponse (buffer float32))])])

(class: WaveShaperNode :extends AudioNode
  :members [(property curve (buffer float32))
            (property oversample string)])

(class: OscillatorNode :extends AudioNode
  :members [(property type string)
            (property frequency !AudioParam)
            (property detune !AudioParam)
            (method start [(when number :optional)])
            (method stop [(when number :optional)])
            (method setPeriodicWave [(periodicWave PeriodicWave)] :mutates [type])
            (property onended EventTarget)])

(class: PeriodicWave)

(class: MediaStreamAudioSourceNode :extends AudioNode)

(class: MediaStreamAudioDestinationNode :extends AudioNode
  :members [(property stream !MediaStream :readonly)])

; Vendor-prefixed constructors

(class: webkitAudioContext :extends AudioContext
  :deprecated \x7b:replacement AudioContext :note \"WebKit-prefixed constructor.\"\x7d)

(class: webkitOfflineAudioContext :extends OfflineAudioContext
  :params [(numberOfChannels number) (length number) (sampleRate number)]
  :deprecated \x7b:replacement OfflineAudioContext :note \"WebKit-prefixed constructor.\"\x7d)

(class: webkitPannerNode :extends PannerNode
  :deprecated \x7b:replacement PannerNode :note \"WebKit-prefixed constructor.\"\x7d)

; Firefox audio data API. Non-standard and deprecated.
(class: Audio :extends HTMLAudioElement
  :params [(src string :optional)]
  :see [\"https://developer.mozilla.org/en/DOM/HTMLAudioElement\"]
  :members [(method mozSetup [(channels number) (rate number)]
              :deprecated \"Non-standard Firefox audio data API.\")
            (method mozWriteAudio [(buffer (union (array *) (buffer float32)))]
              :deprecated \"Non-standard Firefox audio data API.\")
            (method mozCurrentSampleOffset [] number
              :deprecated \"Non-standard Firefox audio data API.\")])
"

end ApiCatalog.Bundled
